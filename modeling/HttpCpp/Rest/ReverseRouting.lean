import HttpCpp.Rest.RouteMatch
import HttpCpp.Rest.RouteVariables

namespace HttpCpp

open PatternTable

variable {Fn : Type}

/-- The path of a route whose variables have these values. -/
def urlFor (dispatchRoute : Bytes) (value : Bytes → Bytes) : Bytes :=
  slash :: [slash].intercalate ((pattern dispatchRoute).map (fillWith value))

/-- The parameters of a route whose variables have these values. -/
def paramsFor (dispatchRoute : Bytes) (value : Bytes → Bytes) : ParamMap :=
  StdMap.empty.insertRange ((idents (pattern dispatchRoute)).map fun i => (i, value i))

/-- The values are segments of a path. -/
def SegmentValues (dispatchRoute : Bytes) (value : Bytes → Bytes) : Prop :=
  ∀ i ∈ idents (pattern dispatchRoute), value i ≠ [] ∧ slash ∉ value i

theorem pattern_ne_nil (dispatchRoute : Bytes) : pattern dispatchRoute ≠ [] := by
  simp [pattern, dispatchSplit, List.splitOn_ne_nil]

theorem fillWith_slash (dispatchRoute : Bytes) (value : Bytes → Bytes)
    (hvalue : SegmentValues dispatchRoute value) :
    ∀ s ∈ (pattern dispatchRoute).map (fillWith value), slash ∉ s := by
  intro s hs
  obtain ⟨x, hx, rfl⟩ := List.mem_map.mp hs
  cases x with
  | static t =>
    obtain ⟨route, hroute, hsegment⟩ := List.mem_map.mp hx
    obtain rfl := segment_static route t hsegment
    exact splitOn_piece slash _ route hroute
  | dynamic i => exact (hvalue i ((mem_idents i _).mpr hx)).2

/-- The segments of the path of a route are those of the route with the values put in. -/
theorem dispatchSplit_urlFor (dispatchRoute : Bytes) (value : Bytes → Bytes)
    (hvalue : SegmentValues dispatchRoute value) :
    dispatchSplit (urlFor dispatchRoute value) = (pattern dispatchRoute).map (fillWith value) := by
  apply List.splitOn_intercalate
  · exact fillWith_slash dispatchRoute value hvalue
  · simpa using pattern_ne_nil dispatchRoute

theorem path_segments (path : Bytes) (hlead : path.head? = some slash) :
    slash :: [slash].intercalate (dispatchSplit path) = path := by
  cases path with
  | nil => simp at hlead
  | cons c path =>
    obtain rfl := Option.some.inj hlead
    rw [dispatchSplit, List.drop_one, List.tail_cons, List.intercalate_splitOn]

/-- Each name once, its value is found under it. -/
theorem find_assigned (range : List (Bytes × Bytes)) (hnodup : (range.map Prod.fst).Nodup) :
    ∀ e ∈ range, ((StdMap.empty.insertRange range).find e.1).getD [] = e.2 := by
  intro e he
  rw [StdMap.find_insertRange, StdMap.find_empty, Option.none_or,
    Assoc.find_of_mem e.1 e.2 range hnodup he, Option.getD_some]

namespace Router

/-- Where no route names a variable twice, dispatch is the inverse of filling in a route: a path
gets a function with some parameters exactly if it is the path of an accepted route with these as
the values of its variables, and no other route spells one of them out. -/
theorem getDispatch_urlFor_iff (bld : Build) (calls : List (RouteCall Fn))
    (hnodup : ∀ c ∈ (addRoutes calls).2, (idents (pattern c.dispatchRoute)).Nodup) (m : Method)
    (path : Bytes) (hlead : path.head? = some slash) (hpath : ∀ s ∈ dispatchSplit path, s ≠ [])
    (fn : Fn) (params : ParamMap) :
    getDispatch bld (addRoutes calls).1 m path .empty = .ok (some fn, params) ↔
      ∃ c ∈ (addRoutes calls).2, c.method = m ∧ c.fn = some fn ∧
        ¬Shadowed (table calls) (pattern c.dispatchRoute) (dispatchSplit path) ∧
        ∃ value, SegmentValues c.dispatchRoute value ∧ path = urlFor c.dispatchRoute value ∧
          params = paramsFor c.dispatchRoute value := by
  have hcoh := represents_coherent _ _ (addRoutes_represents calls)
  have hfront := front_eq path hpath
  constructor
  · intro h
    obtain ⟨c, hc, hm, hfn, hsel, -⟩ := getDispatch_some bld calls m path hlead .empty params fn h
    have hmem : (pattern c.dispatchRoute, c.method, c.fn) ∈ table calls :=
      (mem_routeTable _ _ _ _).mpr ⟨c, hc, rfl, rfl, rfl⟩
    have hassigned := bindings_assignments _ hcoh _ _ _ hmem hsel
    have hkeys := assignments_idents _ _ hsel.1
    rw [getDispatch_eq bld calls m path hlead .empty] at h
    split_ifs at h
    obtain ⟨-, hparams⟩ := Prod.mk.inj (Except.ok.inj h)
    rw [hassigned, hfront] at hparams
    rw [hfront] at hsel hkeys
    have hvalues : ∀ e ∈ assignments (pattern c.dispatchRoute) (dispatchSplit path),
        (params.find e.1).getD [] = e.2 := by
      rw [← hparams]
      exact find_assigned _ (by rw [hkeys]; exact hnodup c hc)
    have hfilled := map_fillWith (fun i => (params.find i).getD []) _ _ hsel.1 hvalues
    refine ⟨c, hc, hm, hfn, hsel.2, fun i => (params.find i).getD [], ?_, ?_, ?_⟩
    · intro i hi
      have hin : (params.find i).getD [] ∈ dispatchSplit path := by
        rw [← hfilled]
        exact List.mem_map.mpr ⟨.dynamic i, (mem_idents i _).mp hi, rfl⟩
      exact ⟨hpath _ hin, splitOn_piece slash _ _ hin⟩
    · rw [urlFor, hfilled, path_segments path hlead]
    · rw [paramsFor, ← assignments_fillWith, hfilled, hparams]
  · rintro ⟨c, hc, rfl, hfn, hsh, value, hvalue, rfl, rfl⟩
    have hsplit := dispatchSplit_urlFor c.dispatchRoute value hvalue
    have hsel : Selects (table calls) (pattern c.dispatchRoute)
        (front (urlFor c.dispatchRoute value)) := by
      refine ⟨?_, by rwa [hfront]⟩
      rw [hfront, hsplit]
      exact fits_fillWith value _
    have hmem : (pattern c.dispatchRoute, c.method, c.fn) ∈ table calls :=
      (mem_routeTable _ _ _ _).mpr ⟨c, hc, rfl, rfl, rfl⟩
    have hassigned := bindings_assignments _ hcoh _ _ _ hmem hsel
    rw [hfront, hsplit, assignments_fillWith] at hassigned
    obtain ⟨params, hget⟩ := getDispatch_selected bld calls c hc _ hlead hsel .empty
      (Or.inr ((unbound_empty _).mpr (hnodup c hc)))
    rw [hget, hfn]
    rw [getDispatch_eq bld calls c.method _ hlead .empty] at hget
    split_ifs at hget
    obtain ⟨-, hparams⟩ := Prod.mk.inj (Except.ok.inj hget)
    rw [← hparams, hfront, hsplit, hassigned]
    rfl

theorem getDispatch_urlFor_message :
    getDispatch plainBuild (addRoutes [⟨.mGet, lit "/message/:id", some 0⟩,
        ⟨.mGet, lit "/message/:id/author", some 1⟩, ⟨.mGet, lit "/message/all", some 2⟩]).1 .mGet
        (lit "/message/5/author") .empty =
      .ok (some 1, paramsFor (lit "/message/:id/author") fun _ => lit "5") := by
  have hpattern : pattern (lit "/message/:id/author") =
      [.static (lit "message"), .dynamic (lit "id"), .static (lit "author")] := by decide
  have hsplit : dispatchSplit (lit "/message/5/author") =
      [lit "message", lit "5", lit "author"] := by decide
  refine (getDispatch_urlFor_iff plainBuild _ (by decide) .mGet _ (by decide) (by decide) 1 _).mpr
    ⟨⟨.mGet, lit "/message/:id/author", some 1⟩, by decide, rfl, rfl, ?_, fun _ => lit "5", ?_,
      by decide, rfl⟩
  · rw [hpattern, hsplit, shadowed_static, shadowed_dynamic, shadowed_static]
    exact not_or.mpr ⟨by decide, shadowed_nil _ _⟩
  · have hsegment : lit "5" ≠ [] ∧ slash ∉ lit "5" := by decide
    exact fun _ _ => hsegment

end Router

end HttpCpp
