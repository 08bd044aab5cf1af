import HttpCpp.Rest.Registration
import Mathlib.Data.List.Pairwise
import Mathlib.Data.Set.Function

namespace HttpCpp

open PatternTable

variable {Fn : Type}

/-- `[a-zA-Z_][a-zA-Z0-9_]*` -/
def Identifier (name : Bytes) : Prop := ∃ x a, name = x :: a ∧ identStart x ∧ ∀ y ∈ a, identPart y

/-- What a segment of a registered route can be. -/
def SegmentForm : Seg Bytes Bytes → Prop
  | .static s => slash ∉ s ∧ ¬∃ name, Identifier name ∧ s = lit ":" ++ name
  | .dynamic i => Identifier i

theorem segment_form (route : Bytes) (h : slash ∉ route) : SegmentForm (segment route) := by
  cases hname : dynamicName route with
  | none =>
    have hstatic : ¬∃ name, Identifier name ∧ route = lit ":" ++ name := by
      intro hdynamic
      obtain ⟨name, hident, hroute⟩ := hdynamic
      have hsome := (dynamicName_some route name).mpr ⟨hroute, hident⟩
      rw [hname] at hsome
      contradiction
    simpa only [segment, hname, SegmentForm] using And.intro h hstatic
  | some name =>
    have hident : Identifier name := ((dynamicName_some route name).mp hname).2
    simpa only [segment, hname, SegmentForm] using hident

theorem pattern_form (dispatchRoute : Bytes) : ∀ x ∈ pattern dispatchRoute, SegmentForm x := by
  intro x hx
  obtain ⟨route, hroute, rfl⟩ := List.mem_map.mp hx
  apply segment_form
  exact splitOn_piece slash _ route hroute

namespace UrlDispatchNode

/-- The maps of children have their keys in order, at every node. -/
inductive Ordered : UrlDispatchNode Fn → Prop where
  | mk {node : UrlDispatchNode Fn}
    (keys : node.staticRoutes.Pairwise (fun a b => a.1 < b.1))
    (static : ∀ s next, Assoc.find s node.staticRoutes = some next → Ordered next)
    (dynamic : ∀ next, node.dynamicRouteNode = some next → Ordered next) : Ordered node

theorem ordered_new : Ordered (new : UrlDispatchNode Fn) := by
  constructor
  · exact List.Pairwise.nil
  · intro s next h
    simp [new] at h
  · intro next h
    simp [new] at h

theorem ordered_keys (node next : UrlDispatchNode Fn) (h : Ordered node) (x : Seg Bytes Bytes) :
    (node.setChild next x).staticRoutes.Pairwise (fun a b => a.1 < b.1) := by
  obtain ⟨hkeys, -, -⟩ := h
  cases x with
  | static s =>
    simp only [setChild]
    split_ifs
    · exact Assoc.update_sorted s next _ hkeys
    · exact Assoc.emplace_sorted s next _ hkeys
  | dynamic i => exact hkeys

theorem ordered_setChild (node next : UrlDispatchNode Fn) (h : Ordered node) (x : Seg Bytes Bytes)
    (hnext : Ordered next) : Ordered (node.setChild next x) := by
  have hkeys := ordered_keys node next h x
  obtain ⟨-, hstatic, hdynamic⟩ := h
  constructor
  · exact hkeys
  · intro s child hsome
    cases x with
    | static route =>
      rw [find_setChild] at hsome
      split_ifs at hsome with hs
      · obtain rfl := Option.some.inj hsome
        exact hnext
      · exact hstatic s child hsome
    | dynamic i => exact hstatic s child hsome
  · intro child hsome
    cases x with
    | static route => exact hdynamic child hsome
    | dynamic i =>
      obtain rfl := Option.some.inj hsome
      exact hnext

theorem ordered_child (node next : UrlDispatchNode Fn) (h : Ordered node) (x : Seg Bytes Bytes)
    (hchild : node.child x = some next) : Ordered next := by
  obtain ⟨-, hstatic, hdynamic⟩ := h
  cases x with
  | static s => exact hstatic s next hchild
  | dynamic i =>
    simp only [child] at hchild
    split_ifs at hchild
    exact hdynamic next hchild

theorem ordered_childOrNew (node : UrlDispatchNode Fn) (h : Ordered node) (x : Seg Bytes Bytes) :
    Ordered ((node.child x).getD new) := by
  cases hchild : node.child x with
  | none => exact ordered_new
  | some next => exact ordered_child node next h x hchild

theorem addSegments_ordered (m : Method) (fn : StdFunction Fn) (split : List Bytes)
    (totalPath : Bytes) (node : UrlDispatchNode Fn) (h : Ordered node) :
    Ordered (addSegments m fn split totalPath node).1 := by
  induction split generalizing totalPath node with
  | nil =>
    simp only [addSegments]
    split
    · exact h
    · obtain ⟨hkeys, hstatic, hdynamic⟩ := h
      exact ⟨hkeys, hstatic, hdynamic⟩
  | cons route split ih =>
    rcases addSegments_cons m fn route split totalPath node with
      ⟨what, i, -, -, -, heq⟩ | ⟨-, -, heq⟩ | ⟨-, totalPath', heq⟩
    · rw [heq]
      exact h
    · rw [heq]
      exact h
    · rw [heq]
      apply ordered_setChild node _ h
      exact ih totalPath' _ (ordered_childOrNew node h (segment route))

/-- A child of a node and the segment it stands for. -/
def Child (node : UrlDispatchNode Fn) : Seg Bytes Bytes → UrlDispatchNode Fn → Prop
  | .static s, next => (s, next) ∈ node.staticRoutes
  | .dynamic i, next => node.dynamicRouteIdentifier = i ∧ node.dynamicRouteNode = some next

/-- The nodes of a tree, each at the segments that lead to it. -/
def NodeAt : UrlDispatchNode Fn → List (Seg Bytes Bytes) → UrlDispatchNode Fn → Prop
  | node, [], last => last = node
  | node, x :: path, last => ∃ next, Child node x next ∧ NodeAt next path last

/-- The map of an ordered node has one entry for a key, the one that a search finds. -/
theorem child_iff (node next : UrlDispatchNode Fn) (h : Ordered node) (x : Seg Bytes Bytes) :
    Child node x next ↔ node.child x = some next := by
  obtain ⟨hkeys, -, -⟩ := h
  cases x with
  | static s => exact StdMap.mem_entries ⟨node.staticRoutes, hkeys⟩ s next
  | dynamic i => simp [Child, child]

/-- The node at a path holds the rests of the routes that start with it; no node below the root is
there without one. -/
theorem nodeAt_represents (node last : UrlDispatchNode Fn) (T : RouteTable Fn) (h : Ordered node)
    (hrep : Represents node T) (path : List (Seg Bytes Bytes)) (hat : NodeAt node path last) :
    Ordered last ∧ Represents last (descend T path) ∧ (path = [] ∨ descend T path ≠ []) := by
  induction path generalizing node T with
  | nil =>
    subst hat
    exact ⟨h, hrep, Or.inl rfl⟩
  | cons x path ih =>
    obtain ⟨next, hchild, hrest⟩ := hat
    rw [child_iff node next h] at hchild
    have hnext := ordered_child node next h x hchild
    obtain ⟨hnextRep, hne⟩ := represents_childAt node next T hrep x hchild
    obtain ⟨hlast, hlastRep, halive⟩ := ih next (derive x T) hnext hnextRep hrest
    refine ⟨hlast, hlastRep, Or.inr ?_⟩
    rcases halive with rfl | halive
    · exact hne
    · exact halive

theorem nodeAt_unique (node last last' : UrlDispatchNode Fn) (h : Ordered node)
    (path : List (Seg Bytes Bytes)) (hat : NodeAt node path last) (hat' : NodeAt node path last') :
    last = last' := by
  induction path generalizing node with
  | nil => exact hat.trans hat'.symm
  | cons x path ih =>
    obtain ⟨next, hchild, hrest⟩ := hat
    obtain ⟨next', hchild', hrest'⟩ := hat'
    rw [child_iff node _ h] at hchild hchild'
    obtain rfl := Option.some.inj (hchild.symm.trans hchild')
    exact ih next (ordered_child node next h x hchild) hrest hrest'

theorem represents_hasNode (node : UrlDispatchNode Fn) (T : RouteTable Fn) (h : Ordered node)
    (hrep : Represents node T) (path : List (Seg Bytes Bytes)) (hne : descend T path ≠ []) :
    ∃ last, NodeAt node path last := by
  induction path generalizing node T with
  | nil => exact ⟨node, rfl⟩
  | cons x path ih =>
    have hfirst : derive x T ≠ [] := by
      intro hnil
      apply hne
      show descend (derive x T) path = []
      rw [hnil, descend_nil]
    obtain ⟨next, hchild, hnextRep⟩ := represents_derive node T hrep x hfirst
    have hnext := ordered_child node next h x hchild
    obtain ⟨last, hlast⟩ := ih next (derive x T) hnext hnextRep hne
    exact ⟨last, next, (child_iff node next h x).mpr hchild, hlast⟩

/-- The functions of a tree are the entries of the table it holds. -/
theorem nodeAt_function (node : UrlDispatchNode Fn) (T : RouteTable Fn) (h : Ordered node)
    (hrep : Represents node T) (path : List (Seg Bytes Bytes)) (m : Method) (fn : StdFunction Fn) :
    (∃ last, NodeAt node path last ∧ (m, fn) ∈ last.functions.entries) ↔ (path, m, fn) ∈ T := by
  have hend := mem_descend T path [] (m, fn)
  rw [List.append_nil] at hend
  rw [← hend]
  constructor
  · intro hsome
    obtain ⟨last, hat, hfn⟩ := hsome
    obtain ⟨-, hlast, -⟩ := nodeAt_represents node last T h hrep path hat
    obtain ⟨hf, -⟩ := hlast
    rw [← hf, ← StdMap.mem_entries]
    exact hfn
  · intro hmem
    obtain ⟨last, hat⟩ := represents_hasNode node T h hrep path (List.ne_nil_of_mem hmem)
    obtain ⟨-, hlast, -⟩ := nodeAt_represents node last T h hrep path hat
    obtain ⟨hf, -⟩ := hlast
    refine ⟨last, hat, ?_⟩
    rw [StdMap.mem_entries, hf]
    exact hmem

end UrlDispatchNode

open UrlDispatchNode

/-- What the tree of a router is, at all of its nodes, after some calls of `add_route` went
through. -/
structure RouteTree (root : UrlDispatchNode Fn) (accepted : List (RouteCall Fn)) : Prop where
  named : ∀ path node, NodeAt root path node →
    (node.dynamicRouteIdentifier ≠ [] ↔ node.dynamicRouteNode.isSome)
  identifier : ∀ path node, NodeAt root path node → node.dynamicRouteIdentifier ≠ [] →
    Identifier node.dynamicRouteIdentifier
  keys : ∀ path node, NodeAt root path node → ∀ s ∈ node.staticRoutes.map Prod.fst,
    slash ∉ s ∧ ¬∃ name, Identifier name ∧ s = lit ":" ++ name
  alive : ∀ path node, NodeAt root path node → path ≠ [] →
    ∃ below last m fn, NodeAt node below last ∧ (m, fn) ∈ last.functions.entries
  oneNode : ∀ path node node', NodeAt root path node → NodeAt root path node' → node = node'
  oneFunction : ∀ path node, NodeAt root path node → (node.functions.entries.map Prod.fst).Nodup
  registered : Set.BijOn (fun i : Fin accepted.length =>
      (pattern (accepted.get i).dispatchRoute, (accepted.get i).method, (accepted.get i).fn))
    Set.univ {e | ∃ node, NodeAt root e.1 node ∧ e.2 ∈ node.functions.entries}

section Form

variable (root : UrlDispatchNode Fn) (accepted : List (RouteCall Fn)) (h : Ordered root)
  (hrep : Represents root (routeTable accepted))

include h hrep

theorem child_form (path : List (Seg Bytes Bytes)) (node next : UrlDispatchNode Fn)
    (hat : NodeAt root path node) (x : Seg Bytes Bytes) (hchild : Child node x next) :
    SegmentForm x := by
  obtain ⟨hnode, hnodeRep, -⟩ := nodeAt_represents root node _ h hrep path hat
  rw [child_iff node next hnode] at hchild
  obtain ⟨-, hne⟩ := represents_childAt node next _ hnodeRep x hchild
  obtain ⟨⟨rest, m, fn⟩, hmem⟩ := List.exists_mem_of_ne_nil _ hne
  rw [mem_derive, mem_descend, mem_routeTable] at hmem
  obtain ⟨c, -, -, -, hpattern⟩ := hmem
  apply pattern_form c.dispatchRoute
  rw [hpattern]
  simp

theorem node_named (path : List (Seg Bytes Bytes)) (node : UrlDispatchNode Fn)
    (hat : NodeAt root path node) :
    node.dynamicRouteIdentifier ≠ [] ↔ node.dynamicRouteNode.isSome := by
  obtain ⟨-, hnodeRep, -⟩ := nodeAt_represents root node _ h hrep path hat
  constructor
  · intro hident
    obtain ⟨next, hnext, -⟩ := represents_child node _ hnodeRep hident
    rw [hnext]
    rfl
  · intro hsome hident
    obtain ⟨next, hnext⟩ := Option.isSome_iff_exists.mp hsome
    have hnone := represents_nameless node _ hnodeRep hident
    obtain ⟨-, -, -, -, -, -, hds, -⟩ := hnodeRep
    exact hds next hnext (hnone _)

theorem node_alive (path : List (Seg Bytes Bytes)) (node : UrlDispatchNode Fn)
    (hat : NodeAt root path node) (hpath : path ≠ []) :
    ∃ below last m fn, NodeAt node below last ∧ (m, fn) ∈ last.functions.entries := by
  obtain ⟨hnode, hnodeRep, halive⟩ := nodeAt_represents root node _ h hrep path hat
  obtain ⟨⟨rest, m, fn⟩, hmem⟩ := List.exists_mem_of_ne_nil _ (halive.resolve_left hpath)
  obtain ⟨last, hlast, hfn⟩ := (nodeAt_function node _ hnode hnodeRep rest m fn).mpr hmem
  exact ⟨rest, last, m, fn, hlast, hfn⟩

/-- Every accepted call has its function in the tree, and there is no other. -/
theorem functions_registered
    (hnodup : (accepted.map fun c => (pattern c.dispatchRoute, c.method)).Nodup) :
    Set.BijOn (fun i : Fin accepted.length =>
        (pattern (accepted.get i).dispatchRoute, (accepted.get i).method, (accepted.get i).fn))
      Set.univ {e | ∃ node, NodeAt root e.1 node ∧ e.2 ∈ node.functions.entries} := by
  refine ⟨?_, ?_, ?_⟩
  · intro i _
    apply (nodeAt_function root _ h hrep _ _ _).mpr
    rw [mem_routeTable]
    exact ⟨accepted.get i, List.get_mem accepted i, rfl, rfl, rfl⟩
  · intro i _ j _ hij
    have hslots := List.pairwise_iff_get.mp (List.pairwise_map.mp hnodup)
    obtain ⟨hpattern, htail⟩ := Prod.mk.inj hij
    have hslot : (pattern (accepted.get i).dispatchRoute, (accepted.get i).method) =
        (pattern (accepted.get j).dispatchRoute, (accepted.get j).method) :=
      Prod.ext hpattern (Prod.mk.inj htail).1
    rcases lt_trichotomy i j with hlt | heq | hgt
    · exact absurd hslot (hslots i j hlt)
    · exact heq
    · exact absurd hslot.symm (hslots j i hgt)
  · intro e he
    obtain ⟨path, m, fn⟩ := e
    obtain ⟨c, hc, rfl, rfl, rfl⟩ :=
      (mem_routeTable accepted path m fn).mp ((nodeAt_function root _ h hrep path m fn).mp he)
    obtain ⟨i, rfl⟩ := List.mem_iff_get.mp hc
    exact ⟨i, Set.mem_univ i, rfl⟩

/-- A tree that holds a table of routes is what it should be, whatever the routes. -/
theorem routeTree_of_represents
    (hnodup : (accepted.map fun c => (pattern c.dispatchRoute, c.method)).Nodup) :
    RouteTree root accepted where
  named := node_named root accepted h hrep
  identifier := by
    intro path node hat hident
    have hnamed := node_named root accepted h hrep path node hat
    obtain ⟨next, hnext⟩ := Option.isSome_iff_exists.mp (hnamed.mp hident)
    exact child_form root accepted h hrep path node next hat
      (.dynamic node.dynamicRouteIdentifier) ⟨rfl, hnext⟩
  keys := by
    intro path node hat s hs
    obtain ⟨⟨s, next⟩, hmem, rfl⟩ := List.mem_map.mp hs
    exact child_form root accepted h hrep path node next hat (.static s) hmem
  alive := node_alive root accepted h hrep
  oneNode := fun path node node' => nodeAt_unique root node node' h path
  oneFunction := fun path node _ => StdMap.nodup_keys node.functions
  registered := functions_registered root accepted h hrep hnodup

end Form

namespace Router

theorem call_ordered (s : Router Fn × List (RouteCall Fn)) (c : RouteCall Fn)
    (h : Ordered s.1.routerDispatch) : Ordered (call s c).1.routerDispatch := by
  have hroot := addSegments_ordered c.method c.fn (dispatchSplit c.dispatchRoute) [] _ h
  simp only [call, addRoute]
  cases leadingSlash c.dispatchRoute with
  | error e => exact h
  | ok _ =>
    cases (addSegments c.method c.fn (dispatchSplit c.dispatchRoute) [] s.1.routerDispatch).2 with
    | error e => exact hroot
    | ok _ => exact hroot

theorem addRoutes_ordered (calls : List (RouteCall Fn)) :
    Ordered (addRoutes calls).1.routerDispatch := by
  induction calls using List.reverseRecOn with
  | nil => exact ordered_new
  | append_singleton calls c ih =>
    simp only [addRoutes, List.foldl_append, List.foldl_cons, List.foldl_nil]
    exact call_ordered _ c ih

/-- No route and method are accepted twice. -/
theorem accepted_nodup (calls : List (RouteCall Fn)) :
    ((addRoutes calls).2.map fun c => (pattern c.dispatchRoute, c.method)).Nodup := by
  induction calls using List.reverseRecOn with
  | nil => exact List.nodup_nil
  | append_singleton calls c ih =>
    rw [addRoutes_snoc]
    cases hadd : ((addRoutes calls).1.addRoute c).2 with
    | error e => exact ih
    | ok _ =>
      obtain ⟨-, -, hfresh⟩ := (addRoute_ok_iff calls c).mp hadd
      rw [List.map_append, List.map_singleton, List.nodup_append_comm, List.singleton_append,
        List.nodup_cons]
      exact ⟨(routeTable_fresh _ c).mp hfresh, ih⟩

/-- Whatever calls of `add_route` are made, the tree keeps its form and holds the functions of the
calls that went through, each once. -/
theorem addRoutes_routeTree (calls : List (RouteCall Fn)) :
    RouteTree (addRoutes calls).1.routerDispatch (addRoutes calls).2 :=
  routeTree_of_represents _ _ (addRoutes_ordered calls) (addRoutes_represents calls)
    (accepted_nodup calls)

end Router

end HttpCpp
