import HttpCpp.Rest.RouteTable

namespace HttpCpp

open PatternTable

variable {Fn : Type}

/-- Variables not bound yet, and each bound once. -/
def Unbound (outParams : ParamMap) (names : List Bytes) : Prop :=
  names.Nodup ∧ ∀ i ∈ names, outParams.find i = none

instance (outParams : ParamMap) (names : List Bytes) : Decidable (Unbound outParams names) :=
  inferInstanceAs (Decidable (_ ∧ _))

theorem unbound_nil (outParams : ParamMap) : Unbound outParams [] := by simp [Unbound]

theorem unbound_cons (outParams : ParamMap) (i s : Bytes) (names : List Bytes) :
    Unbound outParams (i :: names) ↔
      outParams.find i = none ∧ Unbound (outParams.emplace i s) names := by
  have hfind : ∀ j, (outParams.emplace i s).find j = none ↔ j ≠ i ∧ outParams.find j = none := by
    intro j
    rw [StdMap.find_emplace]
    by_cases hj : j = i <;> simp [hj]
  simp only [Unbound, List.nodup_cons, List.forall_mem_cons, hfind]
  constructor
  · intro h
    obtain ⟨⟨hi, hnodup⟩, hnone, hrest⟩ := h
    exact ⟨hnone, hnodup, fun j hj => ⟨fun hji => hi (hji ▸ hj), hrest j hj⟩⟩
  · intro h
    obtain ⟨hnone, hnodup, hrest⟩ := h
    exact ⟨⟨fun hi => (hrest i hi).1 rfl, hnodup⟩, hnone, fun j hj => (hrest j hj).2⟩

theorem unbound_empty (names : List Bytes) : Unbound .empty names ↔ names.Nodup := by
  simp [Unbound]

/-- The lookup ends where the flat table says, unless an `assert` finds a variable bound twice. The
induction is on the path, one segment of the table for each node. -/
theorem UrlDispatchNode.lookup_eq (bld : Build) (m : Method) (path : List Bytes)
    (hpath : ∀ s ∈ path, s ≠ []) (outParams : ParamMap) (node : UrlDispatchNode Fn)
    (T : RouteTable Fn) (hrep : Represents node T) :
    lookup bld m path outParams node =
      if bld.ndebug ∨ Unbound outParams ((bindings T path).map Prod.fst) then
        .ok (endFunction m (reach T path), outParams.insertRange (bindings T path))
      else .error .assertion := by
  induction path generalizing outParams node T with
  | nil =>
    have hunbound : bld.ndebug ∨ Unbound outParams ((bindings T []).map Prod.fst) :=
      Or.inr (unbound_nil outParams)
    rw [if_pos hunbound, lookup, functionFor_eq node T hrep m]
    rfl
  | cons s path ih =>
    obtain ⟨hs, hrest⟩ := List.forall_mem_cons.mp hpath
    have hreach : reach T (s :: path) = reach (PatternTable.next T s) path := rfl
    rw [lookup, if_neg hs, hreach]
    rcases represents_next node T hrep s with
      ⟨next, hfind, hnext, hbind⟩ | ⟨next, hfind, hnode, hident, hnext, hbind⟩ |
        ⟨hfind, hnode, hnil, hbind⟩
    · rw [hfind, hbind]
      exact ih hrest outParams next _ hnext
    · have hstep := ih hrest (outParams.emplace node.dynamicRouteIdentifier s) next _ hnext
      have hunbound : bld.ndebug ∨ Unbound outParams (node.dynamicRouteIdentifier ::
            (bindings (PatternTable.next T s) path).map Prod.fst) ↔
          (bld.ndebug ∨ (outParams.find node.dynamicRouteIdentifier).isNone) ∧
            (bld.ndebug ∨ Unbound (outParams.emplace node.dynamicRouteIdentifier s)
              ((bindings (PatternTable.next T s) path).map Prod.fst)) := by
        rw [unbound_cons _ _ s, ← or_and_left, Option.isNone_iff_eq_none]
      simp only [hfind, hnode, hbind, Build.assert_then, ne_eq, hident, not_false_eq_true,
        decide_true, or_true, if_true, List.map_cons, hunbound, hstep, ite_and]
      rfl
    · rw [hnil, reach_nil, hbind]
      simp only [hfind, hnode]
      exact (if_pos (Or.inr (unbound_nil outParams))).symm

namespace Router

theorem call_represents (s : Router Fn × List (RouteCall Fn)) (c : RouteCall Fn)
    (h : Represents s.1.routerDispatch (routeTable s.2)) :
    Represents (call s c).1.routerDispatch (routeTable (call s c).2) := by
  simp only [call, addRoute]
  cases leadingSlash c.dispatchRoute with
  | error e => exact h
  | ok _ =>
    set root := s.1.routerDispatch.addSegments c.method c.fn (dispatchSplit c.dispatchRoute) []
      with hroot
    cases hres : root.2 with
    | error e =>
      have hsame : root.1 = s.1.routerDispatch :=
        UrlDispatchNode.addSegments_error _ _ _ _ _ e hres
      simp only [hsame]
      exact h
    | ok _ =>
      have hrep := UrlDispatchNode.addSegments_ok c.method c.fn _ _ _ _ h hres
      rw [routeTable, List.map_append]
      exact hrep

/-- The accepted routes of a router, as one flat table. -/
def table (calls : List (RouteCall Fn)) : RouteTable Fn := routeTable (addRoutes calls).2

/-- Every router that calls of `add_route` build holds exactly the routes of the calls that did
not throw. -/
theorem addRoutes_represents (calls : List (RouteCall Fn)) :
    Represents (addRoutes calls).1.routerDispatch (table calls) := by
  induction calls using List.reverseRecOn with
  | nil => exact represents_new
  | append_singleton calls c ih =>
    simp only [table, addRoutes, List.foldl_append, List.foldl_cons, List.foldl_nil]
    exact call_represents _ c ih

theorem addRoutes_snoc (calls : List (RouteCall Fn)) (c : RouteCall Fn) :
    (addRoutes (calls ++ [c])).2 = match ((addRoutes calls).1.addRoute c).2 with
      | .ok _ => (addRoutes calls).2 ++ [c]
      | .error _ => (addRoutes calls).2 := by
  simp only [addRoutes, List.foldl_append, List.foldl_cons, List.foldl_nil]
  set s := calls.foldl call (new, [])
  rcases h : s.1.addRoute c with ⟨router, e | _⟩ <;> simp only [call, h]

theorem table_snoc (calls : List (RouteCall Fn)) (c : RouteCall Fn) :
    table (calls ++ [c]) = table calls ∨ table (calls ++ [c]) = table calls ++ routeTable [c] := by
  simp only [table, addRoutes_snoc]
  cases ((addRoutes calls).1.addRoute c).2 with
  | error e => exact Or.inl rfl
  | ok _ => exact Or.inr List.map_append

theorem accepted_append (calls more : List (RouteCall Fn)) (c : RouteCall Fn)
    (h : c ∈ (addRoutes calls).2) : c ∈ (addRoutes (calls ++ more)).2 := by
  induction more using List.reverseRecOn with
  | nil => simpa using h
  | append_singleton more d ih =>
    rw [← List.append_assoc, addRoutes_snoc]
    cases ((addRoutes (calls ++ more)).1.addRoute d).2 with
    | error e => exact ih
    | ok _ => exact List.mem_append_left _ ih

/-- The segments the lookup reads. -/
def front (dispatchRoute : Bytes) : List Bytes :=
  (dispatchSplit dispatchRoute).takeWhile (· ≠ [])

theorem front_eq (dispatchRoute : Bytes) (h : ∀ s ∈ dispatchSplit dispatchRoute, s ≠ []) :
    front dispatchRoute = dispatchSplit dispatchRoute := by
  rw [front, List.takeWhile_eq_self_iff]
  simpa using h

/-- What `get_dispatch` returns, read off the flat table. -/
theorem getDispatch_eq (bld : Build) (calls : List (RouteCall Fn)) (m : Method)
    (dispatchRoute : Bytes) (hlead : dispatchRoute.head? = some slash) (outParams : ParamMap) :
    getDispatch bld (addRoutes calls).1 m dispatchRoute outParams =
      if bld.ndebug ∨
          Unbound outParams ((bindings (table calls) (front dispatchRoute)).map Prod.fst) then
        .ok (endFunction m (reach (table calls) (front dispatchRoute)),
          outParams.insertRange (bindings (table calls) (front dispatchRoute)))
      else .error .assertion := by
  have hok : leadingSlash dispatchRoute = .ok () := if_pos hlead
  have hfront : ∀ s ∈ front dispatchRoute, s ≠ [] := by
    intro s hs
    simpa using List.mem_takeWhile_imp hs
  simp only [getDispatch, hok, bind, Except.bind]
  rw [UrlDispatchNode.lookup_takeWhile]
  exact UrlDispatchNode.lookup_eq bld m _ hfront outParams _ _
    (addRoutes_represents calls)

end Router

/-- The flat reference: the routes that stay after each segment of the path, the function at their
end and the variables bound on the way. -/
def refDispatch (m : Method) (T : RouteTable Fn) (path : List Bytes) :
    StdFunction Fn × ParamMap :=
  (endFunction m (reach T path), StdMap.empty.insertRange (bindings T path))

namespace Router

/-- The trie that any calls build dispatches as the flat table of their accepted routes. -/
theorem getDispatch_refines (bld : Build) (hndebug : bld.ndebug) (calls : List (RouteCall Fn))
    (m : Method) (path : Bytes) (hlead : path.head? = some slash)
    (hpath : ∀ s ∈ dispatchSplit path, s ≠ []) :
    getDispatch bld (addRoutes calls).1 m path .empty =
      .ok (refDispatch m (table calls) (dispatchSplit path)) := by
  rw [getDispatch_eq bld calls m path hlead .empty, if_pos (Or.inl hndebug),
    front_eq path hpath, refDispatch]

theorem getDispatch_refines_message :
    getDispatch { plainBuild with ndebug := true } (addRoutes [⟨.mGet, lit "/a/b", some 0⟩,
      ⟨.mGet, lit "/:x/c", some 1⟩, ⟨.mGet, lit "/:y", some 2⟩, ⟨.mGet, lit "/a/:z", some 3⟩]).1
      .mGet (lit "/a/c") .empty =
        .ok (refDispatch .mGet (table [⟨.mGet, lit "/a/b", some 0⟩, ⟨.mGet, lit "/:x/c", some 1⟩,
          ⟨.mGet, lit "/:y", some 2⟩, ⟨.mGet, lit "/a/:z", some 3⟩])
          (dispatchSplit (lit "/a/c"))) :=
  getDispatch_refines _ rfl _ .mGet (lit "/a/c") (by decide) (by decide)

end Router

end HttpCpp
