import HttpCpp.Framework.PatternTable
import HttpCpp.Rest.Router

namespace HttpCpp

open PatternTable

/-- The routes a router serves, as one flat table. -/
abbrev RouteTable (Fn : Type) := PatternTable Bytes Bytes (Method × StdFunction Fn)

/-- A route segment as `add_route` reads it. -/
def segment (route : Bytes) : Seg Bytes Bytes :=
  match dynamicName route with
  | some name => .dynamic name
  | none => .static route

def pattern (dispatchRoute : Bytes) : List (Seg Bytes Bytes) :=
  (dispatchSplit dispatchRoute).map segment

variable {Fn : Type}

def routeTable (accepted : List (RouteCall Fn)) : RouteTable Fn :=
  accepted.map fun c => (pattern c.dispatchRoute, c.method, c.fn)

/-- The function of the remaining route that has no further segment and the method. -/
def endFunction (m : Method) (T : RouteTable Fn) : StdFunction Fn :=
  (T.findSome? fun e => if e.1 = [] ∧ e.2.1 = m then some e.2.2 else none).getD none

/-- A node holds the rests of the routes that lead through it. -/
inductive Represents : UrlDispatchNode Fn → RouteTable Fn → Prop where
  | mk {node : UrlDispatchNode Fn} {T : RouteTable Fn}
    (functions : ∀ m fn, node.functions.find m = some fn ↔ ([], m, fn) ∈ T)
    (staticNone : ∀ s, Assoc.find s node.staticRoutes = none → derive (.static s) T = [])
    (staticSome : ∀ s next, Assoc.find s node.staticRoutes = some next →
      derive (.static s) T ≠ [])
    (staticNext : ∀ s next, Assoc.find s node.staticRoutes = some next →
      Represents next (derive (.static s) T))
    (dynamicNone : node.dynamicRouteNode = none → node.dynamicRouteIdentifier = [])
    (dynamicOther : ∀ i, i ≠ node.dynamicRouteIdentifier ∨ i = [] → derive (.dynamic i) T = [])
    (dynamicSome : ∀ next, node.dynamicRouteNode = some next →
      derive (.dynamic node.dynamicRouteIdentifier) T ≠ [])
    (dynamicNext : ∀ next, node.dynamicRouteNode = some next →
      Represents next (derive (.dynamic node.dynamicRouteIdentifier) T)) :
    Represents node T

theorem mem_routeTable (accepted : List (RouteCall Fn)) (p : List (Seg Bytes Bytes)) (m : Method)
    (fn : StdFunction Fn) : (p, m, fn) ∈ routeTable accepted ↔
      ∃ c ∈ accepted, c.method = m ∧ c.fn = fn ∧ pattern c.dispatchRoute = p := by
  simp only [routeTable, List.mem_map, Prod.mk.injEq]
  constructor
  · intro h
    obtain ⟨c, hc, hp, hm, hfn⟩ := h
    exact ⟨c, hc, hm, hfn, hp⟩
  · intro h
    obtain ⟨c, hc, hm, hfn, hp⟩ := h
    exact ⟨c, hc, hp, hm, hfn⟩

theorem dynamicName_ne_nil (route name : Bytes) (h : dynamicName route = some name) :
    name ≠ [] := by
  obtain ⟨-, x, a, rfl, -⟩ := (dynamicName_some route name).mp h
  simp

theorem segment_injective (route route' : Bytes) (h : segment route = segment route') :
    route = route' := by
  simp only [segment] at h
  cases hname : dynamicName route with
  | none =>
    cases hname' : dynamicName route' with
    | none => simpa [hname, hname'] using h
    | some name' => simp [hname, hname'] at h
  | some name =>
    cases hname' : dynamicName route' with
    | none => simp [hname, hname'] at h
    | some name' =>
      have hnames : name = name' := by simpa [hname, hname'] using h
      rw [((dynamicName_some route name).mp hname).1, ((dynamicName_some route' name').mp hname').1,
        hnames]

theorem represents_new : Represents (UrlDispatchNode.new : UrlDispatchNode Fn) [] := by
  constructor
  · intro m fn; simp [UrlDispatchNode.new]
  · intros; rfl
  · intro s next h; simp [UrlDispatchNode.new] at h
  · intro s next h; simp [UrlDispatchNode.new] at h
  · intros; rfl
  · intros; rfl
  · intro next h; simp [UrlDispatchNode.new] at h
  · intro next h; simp [UrlDispatchNode.new] at h

/-- No route goes on with a variable other than that of the node. -/
theorem represents_other (node : UrlDispatchNode Fn) (T : RouteTable Fn) (h : Represents node T)
    (i : Bytes) (hi : i ≠ node.dynamicRouteIdentifier) : derive (.dynamic i) T = [] := by
  obtain ⟨-, -, -, -, -, hother, -, -⟩ := h
  exact hother i (Or.inl hi)

theorem represents_nameless (node : UrlDispatchNode Fn) (T : RouteTable Fn)
    (h : Represents node T) (hident : node.dynamicRouteIdentifier = []) (i : Bytes) :
    derive (.dynamic i) T = [] := by
  obtain ⟨-, -, -, -, -, hother, -, -⟩ := h
  apply hother
  rw [hident]
  exact (em (i = [])).symm

/-- A node with a variable has a child, which holds the rests of the routes that go on with it. -/
theorem represents_child (node : UrlDispatchNode Fn) (T : RouteTable Fn) (h : Represents node T)
    (hident : node.dynamicRouteIdentifier ≠ []) :
    ∃ next, node.dynamicRouteNode = some next ∧
      Represents next (derive (.dynamic node.dynamicRouteIdentifier) T) ∧
      derive (.dynamic node.dynamicRouteIdentifier) T ≠ [] := by
  obtain ⟨-, -, -, -, hnone, -, hsome, hnext⟩ := h
  cases hnode : node.dynamicRouteNode with
  | none => exact absurd (hnone hnode) hident
  | some next => exact ⟨next, rfl, hnext next hnode, hsome next hnode⟩

namespace UrlDispatchNode

/-- The child that a segment leads to. -/
def child (node : UrlDispatchNode Fn) : Seg Bytes Bytes → Option (UrlDispatchNode Fn)
  | .static s => Assoc.find s node.staticRoutes
  | .dynamic i => if node.dynamicRouteIdentifier = i then node.dynamicRouteNode else none

/-- The node with another child, or a further one, at a segment. -/
def setChild (node next : UrlDispatchNode Fn) : Seg Bytes Bytes → UrlDispatchNode Fn
  | .static s => { node with
      staticRoutes := if (Assoc.find s node.staticRoutes).isSome
        then Assoc.update s next node.staticRoutes else Assoc.emplace s next node.staticRoutes }
  | .dynamic i => { node with dynamicRouteIdentifier := i, dynamicRouteNode := some next }

@[simp] theorem setChild_functions (node next : UrlDispatchNode Fn) (x : Seg Bytes Bytes) :
    (node.setChild next x).functions = node.functions := by
  cases x <;> rfl

@[simp] theorem setStatic_identifier (node next : UrlDispatchNode Fn) (s : Bytes) :
    (node.setChild next (.static s)).dynamicRouteIdentifier = node.dynamicRouteIdentifier := rfl

@[simp] theorem setStatic_node (node next : UrlDispatchNode Fn) (s : Bytes) :
    (node.setChild next (.static s)).dynamicRouteNode = node.dynamicRouteNode := rfl

@[simp] theorem setDynamic_staticRoutes (node next : UrlDispatchNode Fn) (i : Bytes) :
    (node.setChild next (.dynamic i)).staticRoutes = node.staticRoutes := rfl

/-- A variable has a place at a node that has none or the same. -/
def Admits (node : UrlDispatchNode Fn) (x : Seg Bytes Bytes) : Prop :=
  ∀ i, x = .dynamic i → i ≠ [] ∧
    (node.dynamicRouteIdentifier = [] ∨
      node.dynamicRouteIdentifier = i ∧ node.dynamicRouteNode.isSome)

theorem setChild_self (node next : UrlDispatchNode Fn) (x : Seg Bytes Bytes)
    (h : node.child x = some next) : node.setChild next x = node := by
  cases x with
  | static s =>
    have hfind : Assoc.find s node.staticRoutes = some next := h
    simp only [setChild, hfind, Option.isSome_some, if_true]
    rw [Assoc.update_self s next _ hfind]
    cases node
    rfl
  | dynamic i =>
    simp only [child] at h
    split_ifs at h with hident
    simp only [setChild, ← h, ← hident]
    cases node
    rfl

/-- The children of the node after a static segment got one: that one, and those that were there. -/
theorem find_setChild (node next : UrlDispatchNode Fn) (route s : Bytes) :
    Assoc.find s (node.setChild next (.static route)).staticRoutes =
      if s = route then some next else Assoc.find s node.staticRoutes := by
  simp only [setChild]
  by_cases hs : s = route
  · rw [if_pos hs, ← hs]
    split_ifs with hfind
    · exact Assoc.find_update_same s next _ hfind
    · exact Assoc.find_emplace_fresh s next _ (Option.not_isSome_iff_eq_none.mp hfind)
  · rw [if_neg hs]
    split_ifs with hfind
    · exact Assoc.find_update_ne route s next _ hs
    · exact Assoc.find_emplace_ne route s next _ hs

/-- What the insertion does with a segment: it meets a variable of another name, or one without a
node, or goes on at a child that is there or new. -/
theorem addSegments_cons (m : Method) (fn : StdFunction Fn) (route : Bytes) (split : List Bytes)
    (totalPath : Bytes) (node : UrlDispatchNode Fn) :
    (∃ what i, segment route = .dynamic i ∧ node.dynamicRouteIdentifier ≠ [] ∧
      node.dynamicRouteIdentifier ≠ i ∧
      addSegments m fn (route :: split) totalPath node = (node, .error (.invalidArgument what))) ∨
    (node.dynamicRouteIdentifier ≠ [] ∧ node.dynamicRouteNode = none ∧
      addSegments m fn (route :: split) totalPath node = (node, .error .nullPointer)) ∨
    node.Admits (segment route) ∧ ∃ totalPath',
      addSegments m fn (route :: split) totalPath node =
        (node.setChild
          (addSegments m fn split totalPath' ((node.child (segment route)).getD new)).1
          (segment route),
        (addSegments m fn split totalPath' ((node.child (segment route)).getD new)).2) := by
  simp only [addSegments]
  cases hname : dynamicName route with
  | some name =>
    have hseg : segment route = .dynamic name := by simp [segment, hname]
    have hnamed := dynamicName_ne_nil route name hname
    simp only [hseg]
    split_ifs with hident hne
    · have hchild : node.child (.dynamic name) = none := if_neg (hident ▸ hnamed.symm)
      refine Or.inr (Or.inr ⟨?_, totalPath ++ lit "/" ++ route, ?_⟩)
      · rintro i ⟨⟩
        exact ⟨hnamed, Or.inl hident⟩
      · rw [hchild]
        rfl
    · exact Or.inl ⟨_, name, rfl, hident, hne, rfl⟩
    · rw [not_not] at hne
      cases hnode : node.dynamicRouteNode with
      | none => exact Or.inr (Or.inl ⟨hident, rfl, rfl⟩)
      | some next =>
        have hchild : node.child (.dynamic name) = some next := (if_pos hne).trans hnode
        refine Or.inr (Or.inr ⟨?_, totalPath ++ lit "/" ++ route, ?_⟩)
        · rintro i ⟨⟩
          exact ⟨hnamed, Or.inr ⟨hne, by rw [hnode]; rfl⟩⟩
        · rw [hchild, Option.getD_some, setChild, ← hne]
  | none =>
    have hseg : segment route = .static route := by simp [segment, hname]
    simp only [hseg]
    refine Or.inr (Or.inr ⟨?_, totalPath ++ lit "/" ++ route, ?_⟩)
    · rintro i ⟨⟩
    · cases hfind : Assoc.find route node.staticRoutes with
      | none => simp [child, setChild, hfind]
      | some next => simp [child, setChild, hfind]

end UrlDispatchNode

/-- A child holds the rests of the routes that go on with its segment, and there are some. -/
theorem represents_childAt (node next : UrlDispatchNode Fn) (T : RouteTable Fn)
    (h : Represents node T) (x : Seg Bytes Bytes) (hchild : node.child x = some next) :
    Represents next (derive x T) ∧ derive x T ≠ [] := by
  obtain ⟨-, -, hss, hsx, -, -, hds, hdx⟩ := h
  cases x with
  | static s => exact ⟨hsx s next hchild, hss s next hchild⟩
  | dynamic i =>
    simp only [UrlDispatchNode.child] at hchild
    split_ifs at hchild with hident
    subst hident
    exact ⟨hdx next hchild, hds next hchild⟩

/-- Without a child at a segment no route goes on with it. -/
theorem represents_childless (node : UrlDispatchNode Fn) (T : RouteTable Fn)
    (h : Represents node T) (x : Seg Bytes Bytes) (hchild : node.child x = none) :
    derive x T = [] := by
  obtain ⟨-, hsn, -, -, hdn, hother, -, -⟩ := h
  cases x with
  | static s => exact hsn s hchild
  | dynamic i =>
    simp only [UrlDispatchNode.child] at hchild
    split_ifs at hchild with hident
    · exact hother i (Or.inr (hident ▸ hdn hchild))
    · exact hother i (Or.inl (Ne.symm hident))

/-- Where the insertion goes on, at a child or at a new node, stands what the table has there. -/
theorem represents_childOrNew (node : UrlDispatchNode Fn) (T : RouteTable Fn)
    (h : Represents node T) (x : Seg Bytes Bytes) :
    Represents ((node.child x).getD .new) (derive x T) := by
  cases hchild : node.child x with
  | none => exact represents_childless node T h x hchild ▸ represents_new
  | some next => exact (represents_childAt node next T h x hchild).1

/-- A node that a segment has a place at knows no variable that the segment could clash with. -/
theorem represents_agrees (node : UrlDispatchNode Fn) (T : RouteTable Fn) (h : Represents node T)
    (x : Seg Bytes Bytes) (hx : node.Admits x) :
    ∀ i j, x = .dynamic i → derive (.dynamic j) T ≠ [] → j = i := by
  intro i j hi hj
  obtain ⟨-, hident⟩ := hx i hi
  by_contra hji
  apply hj
  rcases hident with hident | ⟨hident, -⟩
  · exact represents_nameless node T h hident j
  · exact represents_other node T h j (hident ▸ hji)

theorem represents_function (node : UrlDispatchNode Fn) (T : RouteTable Fn)
    (h : Represents node T) (m : Method) (fn : StdFunction Fn)
    (hfresh : node.functions.find m = none) :
    Represents { node with functions := node.functions.emplace m fn } (T ++ [([], m, fn)]) := by
  obtain ⟨hf, hsn, hss, hsx, hdn, hdo, hds, hdx⟩ := h
  have hd : ∀ x, derive x (T ++ [([], m, fn)]) = derive x T := fun x => derive_snoc_end x T _
  constructor
  · intro m' fn'
    rw [StdMap.find_emplace, hfresh, List.mem_append, ← hf]
    by_cases hm : m' = m
    · subst hm
      simp [hfresh, eq_comm]
    · simp [hm]
  · simpa only [hd] using hsn
  · simpa only [hd] using hss
  · simpa only [hd] using hsx
  · exact hdn
  · simpa only [hd] using hdo
  · simpa only [hd] using hds
  · simpa only [hd] using hdx

theorem represents_setStatic (node next : UrlDispatchNode Fn) (T : RouteTable Fn)
    (h : Represents node T) (route : Bytes) (rest : List (Seg Bytes Bytes))
    (b : Method × StdFunction Fn)
    (hnext : Represents next (derive (.static route) T ++ [(rest, b)])) :
    Represents (node.setChild next (.static route)) (T ++ [(.static route :: rest, b)]) := by
  obtain ⟨hf, hsn, hss, hsx, hdn, hdo, hds, hdx⟩ := h
  have hsame := derive_snoc_same (.static route) T rest b
  have hs : ∀ s, s ≠ route → derive (.static s) (T ++ [(.static route :: rest, b)]) =
      derive (.static s) T := fun s hne => derive_snoc_ne _ _ T rest b (by simpa using hne.symm)
  have hi : ∀ i, derive (.dynamic i) (T ++ [(.static route :: rest, b)]) =
      derive (.dynamic i) T := fun i => derive_snoc_ne _ _ T rest b (by simp)
  constructor
  · intro m fn
    rw [UrlDispatchNode.setChild_functions, hf]
    simp
  · intro s hnone
    rw [UrlDispatchNode.find_setChild] at hnone
    split_ifs at hnone with hsr
    rw [hs s hsr]
    exact hsn s hnone
  · intro s child hsome
    rw [UrlDispatchNode.find_setChild] at hsome
    split_ifs at hsome with hsr
    · rw [hsr, hsame]
      simp
    · rw [hs s hsr]
      exact hss s child hsome
  · intro s child hsome
    rw [UrlDispatchNode.find_setChild] at hsome
    split_ifs at hsome with hsr
    · obtain rfl := Option.some.inj hsome
      rw [hsr, hsame]
      exact hnext
    · rw [hs s hsr]
      exact hsx s child hsome
  · exact hdn
  · simpa only [hi, UrlDispatchNode.setStatic_identifier] using hdo
  · simpa only [hi, UrlDispatchNode.setStatic_identifier, UrlDispatchNode.setStatic_node] using hds
  · simpa only [hi, UrlDispatchNode.setStatic_identifier, UrlDispatchNode.setStatic_node] using hdx

theorem represents_setDynamic (node next : UrlDispatchNode Fn) (T : RouteTable Fn)
    (h : Represents node T) (name : Bytes) (rest : List (Seg Bytes Bytes))
    (b : Method × StdFunction Fn) (hname : name ≠ [])
    (hident : node.dynamicRouteIdentifier = [] ∨ node.dynamicRouteIdentifier = name)
    (hnext : Represents next (derive (.dynamic name) T ++ [(rest, b)])) :
    Represents (node.setChild next (.dynamic name)) (T ++ [(.dynamic name :: rest, b)]) := by
  obtain ⟨hf, hsn, hss, hsx, hdn, hdo, hds, hdx⟩ := h
  have hsame := derive_snoc_same (.dynamic name) T rest b
  have hs : ∀ s, derive (.static s) (T ++ [(.dynamic name :: rest, b)]) =
      derive (.static s) T := fun s => derive_snoc_ne _ _ T rest b (by simp)
  constructor
  · intro m fn
    rw [UrlDispatchNode.setChild_functions, hf]
    simp
  · simpa only [hs, UrlDispatchNode.setDynamic_staticRoutes] using hsn
  · simpa only [hs, UrlDispatchNode.setDynamic_staticRoutes] using hss
  · simpa only [hs, UrlDispatchNode.setDynamic_staticRoutes] using hsx
  · intro hnone
    simp [UrlDispatchNode.setChild] at hnone
  · intro i hi
    have hne : i ≠ name := by
      rcases hi with hi | rfl
      · exact hi
      · exact hname.symm
    rw [derive_snoc_ne _ _ T rest b (by simpa using hne.symm)]
    apply hdo
    rcases hident with hident | hident
    · rw [hident]
      exact (em (i = [])).symm
    · exact Or.inl (hident ▸ hne)
  · intro child _
    rw [UrlDispatchNode.setChild, hsame]
    simp
  · intro child hsome
    obtain rfl : next = child := Option.some.inj hsome
    rw [UrlDispatchNode.setChild, hsame]
    exact hnext

/-- A route that goes on at a child is added to the node by adding its rest to the child. -/
theorem represents_setChild (node next : UrlDispatchNode Fn) (T : RouteTable Fn)
    (h : Represents node T) (x : Seg Bytes Bytes) (hx : node.Admits x)
    (rest : List (Seg Bytes Bytes)) (b : Method × StdFunction Fn)
    (hnext : Represents next (derive x T ++ [(rest, b)])) :
    Represents (node.setChild next x) (T ++ [(x :: rest, b)]) := by
  cases x with
  | static route => exact represents_setStatic node next T h route rest b hnext
  | dynamic name =>
    obtain ⟨hname, hident⟩ := hx name rfl
    exact represents_setDynamic node next T h name rest b hname (hident.imp id And.left) hnext

namespace UrlDispatchNode

/-- An insertion below a new node meets nothing it could collide with. -/
theorem addSegments_new (m : Method) (fn : StdFunction Fn) (split : List Bytes)
    (totalPath : Bytes) : (addSegments m fn split totalPath new).2 = .ok () := by
  induction split generalizing totalPath with
  | nil => rfl
  | cons route split ih =>
    simp only [addSegments]
    cases dynamicName route with
    | some name => exact ih _
    | none => exact ih _

/-- A call that throws leaves the node as it was. -/
theorem addSegments_error (m : Method) (fn : StdFunction Fn) (split : List Bytes)
    (totalPath : Bytes) (node : UrlDispatchNode Fn) (e : Fault)
    (h : (addSegments m fn split totalPath node).2 = .error e) :
    (addSegments m fn split totalPath node).1 = node := by
  induction split generalizing totalPath node with
  | nil =>
    simp only [addSegments] at h ⊢
    split at h
    · rfl
    · simp at h
  | cons route split ih =>
    rcases addSegments_cons m fn route split totalPath node with
      ⟨what, i, -, -, -, heq⟩ | ⟨-, -, heq⟩ | ⟨-, totalPath', heq⟩
    · rw [heq]
    · rw [heq]
    · rw [heq] at h ⊢
      cases hchild : node.child (segment route) with
      | none => simp [hchild, addSegments_new] at h
      | some next =>
        simp only [hchild, Option.getD_some] at h ⊢
        rw [ih _ _ h, setChild_self node next _ hchild]

/-- A call that returns adds its route. The induction is on the segments: below a new node the
table is empty, otherwise the child holds what starts with the segment. -/
theorem addSegments_ok (m : Method) (fn : StdFunction Fn) (split : List Bytes)
    (totalPath : Bytes) (node : UrlDispatchNode Fn) (T : RouteTable Fn) (hrep : Represents node T)
    (h : (addSegments m fn split totalPath node).2 = .ok ()) :
    Represents (addSegments m fn split totalPath node).1 (T ++ [(split.map segment, m, fn)]) := by
  induction split generalizing totalPath node T with
  | nil =>
    simp only [addSegments] at h ⊢
    cases hfind : node.functions.find m with
    | some fn' => simp [hfind] at h
    | none => exact represents_function node T hrep m fn hfind
  | cons route split ih =>
    rcases addSegments_cons m fn route split totalPath node with
      ⟨what, i, -, -, -, heq⟩ | ⟨-, -, heq⟩ | ⟨hadmits, totalPath', heq⟩
    · simp [heq] at h
    · simp [heq] at h
    · rw [heq] at h ⊢
      apply represents_setChild node _ T hrep _ hadmits
      apply ih
      · exact represents_childOrNew node T hrep (segment route)
      · exact h

theorem takeWhile_nonempty (route : Bytes) (split : List Bytes) (h : route ≠ []) :
    (route :: split).takeWhile (· ≠ []) = route :: split.takeWhile (· ≠ []) :=
  List.takeWhile_cons_of_pos (by simpa using h)

/-- The lookup stops at the first empty segment. -/
theorem lookup_takeWhile (bld : Build) (m : Method) (split : List Bytes) (outParams : ParamMap)
    (node : UrlDispatchNode Fn) :
    lookup bld m split outParams node =
      lookup bld m (split.takeWhile (· ≠ [])) outParams node := by
  induction split generalizing outParams node with
  | nil => rfl
  | cons route split ih =>
    by_cases hempty : route = []
    · subst hempty
      simp [lookup]
    · rw [takeWhile_nonempty route split hempty]
      simp only [lookup, hempty, if_false, ← ih]

end UrlDispatchNode

/-- Whatever segment the table goes on with, a node represents what follows. -/
theorem represents_derive (node : UrlDispatchNode Fn) (T : RouteTable Fn)
    (hrep : Represents node T) (x : Seg Bytes Bytes) (hne : derive x T ≠ []) :
    ∃ next, node.child x = some next ∧ Represents next (derive x T) := by
  cases hchild : node.child x with
  | none => exact absurd (represents_childless node T hrep x hchild) hne
  | some next => exact ⟨next, rfl, (represents_childAt node next T hrep x hchild).1⟩

theorem represents_coherent (node : UrlDispatchNode Fn) (T : RouteTable Fn)
    (hrep : Represents node T) : Coherent T := by
  intro e he e' he' front i j hpre hpre'
  obtain ⟨p, b⟩ := e
  obtain ⟨p', b'⟩ := e'
  obtain ⟨rest, rfl⟩ := hpre
  obtain ⟨rest', rfl⟩ := hpre'
  induction front generalizing node T with
  | nil =>
    obtain ⟨-, -, -, -, -, hother, -, -⟩ := hrep
    have hname : ∀ k r c, ((Seg.dynamic k :: r, c) : _ × _) ∈ T →
        k = node.dynamicRouteIdentifier := by
      intro k r c hmem
      by_contra hne
      exact derive_ne_nil_of_mem _ T r c hmem (hother k (Or.inl hne))
    rw [hname i rest b he, hname j rest' b' he']
  | cons x front ih =>
    obtain ⟨next, -, hnext⟩ := represents_derive node T hrep x (derive_ne_nil_of_mem x T _ b he)
    exact ih next (derive x T) hnext ((mem_derive x T _ b).mpr he)
      ((mem_derive x T _ b').mpr he')

/-- What the walk through the table does with a segment, as it shows at the node: it goes on at the
child of that name, or else at the one of the variable, or ends. -/
theorem represents_next (node : UrlDispatchNode Fn) (T : RouteTable Fn) (hrep : Represents node T)
    (s : Bytes) :
    (∃ next, Assoc.find s node.staticRoutes = some next ∧
      Represents next (PatternTable.next T s) ∧
      ∀ path, bindings T (s :: path) = bindings (PatternTable.next T s) path) ∨
    (∃ next, Assoc.find s node.staticRoutes = none ∧ node.dynamicRouteNode = some next ∧
      node.dynamicRouteIdentifier ≠ [] ∧ Represents next (PatternTable.next T s) ∧
      ∀ path, bindings T (s :: path) =
        (node.dynamicRouteIdentifier, s) :: bindings (PatternTable.next T s) path) ∨
    (Assoc.find s node.staticRoutes = none ∧ node.dynamicRouteNode = none ∧
      PatternTable.next T s = [] ∧ ∀ path, bindings T (s :: path) = []) := by
  have hothers := represents_other node T hrep
  have hnameless := represents_nameless node T hrep
  obtain ⟨-, hsn, hss, hsx, hdn, -, hds, hdx⟩ := hrep
  cases hfind : Assoc.find s node.staticRoutes with
  | some next =>
    have hne := hss s next hfind
    rw [next_static T s hne]
    exact Or.inl ⟨next, rfl, hsx s next hfind, fun path => bindings_static T s path hne⟩
  | none =>
    have hempty := hsn s hfind
    have hbind := fun path => bindings_dynamic T s path hempty
    rw [next_dynamic T s hempty]
    cases hnode : node.dynamicRouteNode with
    | none =>
      have hall := hnameless (hdn hnode)
      refine Or.inr (Or.inr ⟨rfl, rfl, deriveDynamic_none T hall, fun path => ?_⟩)
      rw [hbind, headIdent_none T hall, deriveDynamic_none T hall, bindings_nil]
      rfl
    | some next =>
      have hident : node.dynamicRouteIdentifier ≠ [] := fun h => hds next hnode (hnameless h _)
      refine Or.inr (Or.inl ⟨next, rfl, rfl, hident, ?_, fun path => ?_⟩)
      · rw [deriveDynamic_eq T _ hothers]
        exact hdx next hnode
      · rw [hbind, headIdent_eq T _ (hds next hnode) hothers]
        rfl

/-- Every walk through the table arrives at what some node represents. -/
theorem represents_reach (node : UrlDispatchNode Fn) (T : RouteTable Fn)
    (hrep : Represents node T) (path : List Bytes) : ∃ last, Represents last (reach T path) := by
  induction path generalizing node T with
  | nil => exact ⟨node, hrep⟩
  | cons s path ih =>
    rcases represents_next node T hrep s with
      ⟨next, -, hnext, -⟩ | ⟨next, -, -, -, hnext, -⟩ | ⟨-, -, hnil, -⟩
    · exact ih next _ hnext
    · exact ih next _ hnext
    · exact ih .new _ (hnil ▸ represents_new)

theorem functionFor_eq (node : UrlDispatchNode Fn) (T : RouteTable Fn) (hrep : Represents node T)
    (m : Method) : node.functionFor m = endFunction m T := by
  obtain ⟨hf, -⟩ := hrep
  simp only [UrlDispatchNode.functionFor, endFunction]
  congr 1
  cases hsome : T.findSome? fun e => if e.1 = [] ∧ e.2.1 = m then some e.2.2 else none with
  | none =>
    rw [List.findSome?_eq_none_iff] at hsome
    rw [Option.eq_none_iff_forall_ne_some]
    intro fn hfn
    have hnone := hsome _ ((hf m fn).mp hfn)
    simp at hnone
  | some fn =>
    obtain ⟨⟨p, m', fn'⟩, hmem, hif⟩ := List.exists_of_findSome?_eq_some hsome
    simp only at hif
    split_ifs at hif with hend
    obtain ⟨rfl, rfl⟩ := hend
    simp only [Option.some.injEq] at hif
    exact (hf m' fn).mpr (hif ▸ hmem)

/-- A table of routes has at most one function for each method at its end. -/
theorem endFunction_eq (node : UrlDispatchNode Fn) (T : RouteTable Fn) (hrep : Represents node T)
    (m : Method) (fn : StdFunction Fn) : endFunction m T = fn ↔
      ([], m, fn) ∈ T ∨ fn = none ∧ ∀ fn', ([], m, fn') ∉ T := by
  rw [← functionFor_eq node T hrep, UrlDispatchNode.functionFor]
  obtain ⟨hf, -⟩ := hrep
  simp only [← hf]
  cases hfind : node.functions.find m with
  | none => simp [eq_comm]
  | some fn' => simp

end HttpCpp
