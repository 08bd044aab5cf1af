import HttpCpp.Rest.Dispatch

namespace HttpCpp

open PatternTable

variable {Fn : Type}

/-- A route without variables is its segments. -/
theorem pattern_static (split : List Bytes) (h : ∀ s ∈ split, dynamicName s = none) :
    split.map segment = split.map .static := by
  apply List.map_congr_left
  intro s hs
  simp [segment, h s hs]

namespace Router

theorem addRoute_leading (router : Router Fn) (c : RouteCall Fn)
    (h : (router.addRoute c).2 = .ok ()) : c.dispatchRoute.head? = some slash := by
  by_contra hne
  simp [addRoute, leadingSlash, hne] at h

/-- What is registered under the literal route made of some segments. -/
theorem reach_front (calls : List (RouteCall Fn)) (c : RouteCall Fn)
    (hc : c ∈ (addRoutes calls).2) (hstatic : ∀ s ∈ dispatchSplit c.dispatchRoute,
      dynamicName s = none) :
    bindings (table calls) (front c.dispatchRoute) = [] ∧
      ∀ m fn, ([], m, fn) ∈ reach (table calls) (front c.dispatchRoute) ↔
        ∃ d ∈ (addRoutes calls).2, d.method = m ∧ d.fn = fn ∧
          dispatchSplit d.dispatchRoute = front c.dispatchRoute := by
  have hsplit : front c.dispatchRoute ++ (dispatchSplit c.dispatchRoute).dropWhile (· ≠ []) =
      dispatchSplit c.dispatchRoute := List.takeWhile_append_dropWhile
  have hmem : ((front c.dispatchRoute).map Seg.static ++
      ((dispatchSplit c.dispatchRoute).dropWhile (· ≠ [])).map Seg.static, c.method, c.fn) ∈
      table calls := by
    rw [← List.map_append, hsplit, ← pattern_static _ hstatic]
    exact (mem_routeTable _ _ _ _).mpr ⟨c, hc, rfl, rfl, rfl⟩
  have hfront : ∀ s ∈ front c.dispatchRoute, dynamicName s = none := fun s hs =>
    hstatic s (hsplit ▸ List.mem_append_left _ hs)
  obtain ⟨hbind, hreach⟩ := reach_statics (table calls) _ _ _ hmem
  refine ⟨hbind, ?_⟩
  intro m fn
  rw [hreach, List.append_nil, ← pattern_static _ hfront, table, mem_routeTable]
  have hinj : ∀ d : RouteCall Fn, pattern d.dispatchRoute = (front c.dispatchRoute).map segment ↔
      dispatchSplit d.dispatchRoute = front c.dispatchRoute := fun d =>
    List.map_inj_right segment_injective
  simp only [hinj]

/-- A literal route gets its function dispatched exactly when no segment of it is empty or what is
registered under the segments before the first empty one is that function. -/
theorem static_route_reachable_iff (bld : Build) (before after : List (RouteCall Fn))
    (c : RouteCall Fn) (hadd : ((addRoutes before).1.addRoute c).2 = .ok ())
    (hstatic : ∀ s ∈ dispatchSplit c.dispatchRoute, dynamicName s = none)
    (outParams : ParamMap) :
    getDispatch bld (addRoutes (before ++ [c] ++ after)).1 c.method c.dispatchRoute outParams =
        .ok (c.fn, outParams) ↔
      (∀ s ∈ dispatchSplit c.dispatchRoute, s ≠ []) ∨
      (∃ d ∈ (addRoutes (before ++ [c] ++ after)).2, d.method = c.method ∧ d.fn = c.fn ∧
        dispatchSplit d.dispatchRoute = front c.dispatchRoute) ∨
      c.fn = none ∧ ∀ d ∈ (addRoutes (before ++ [c] ++ after)).2, d.method = c.method →
        dispatchSplit d.dispatchRoute ≠ front c.dispatchRoute := by
  set calls := before ++ [c] ++ after with hcalls
  have hc : c ∈ (addRoutes calls).2 := by
    apply accepted_append
    rw [addRoutes_snoc, hadd]
    exact List.mem_append_right _ List.mem_cons_self
  obtain ⟨hbind, hreach⟩ := reach_front calls c hc hstatic
  obtain ⟨last, hlast⟩ := represents_reach _ _ (addRoutes_represents calls) (front c.dispatchRoute)
  have hget : getDispatch bld (addRoutes calls).1 c.method c.dispatchRoute outParams =
      .ok (endFunction c.method (reach (table calls) (front c.dispatchRoute)), outParams) := by
    rw [getDispatch_eq bld calls _ _ (addRoute_leading _ c hadd), hbind,
      List.map_nil, if_pos (Or.inr (unbound_nil outParams))]
    rfl
  rw [hget, Except.ok.injEq, Prod.mk.injEq, and_iff_left rfl, endFunction_eq last _ hlast]
  simp only [hreach]
  constructor
  · intro h
    rcases h with hsome | ⟨hnone, hno⟩
    · exact Or.inr (Or.inl hsome)
    · exact Or.inr (Or.inr ⟨hnone, fun d hd hm hsplit => hno d.fn ⟨d, hd, hm, rfl, hsplit⟩⟩)
  · intro h
    rcases h with hfull | hsome | ⟨hnone, hno⟩
    · exact Or.inl ⟨c, hc, rfl, rfl, (front_eq _ hfull).symm⟩
    · exact Or.inl hsome
    · exact Or.inr ⟨hnone, fun fn' ⟨d, hd, hm, _, hsplit⟩ => hno d hd hm hsplit⟩

theorem static_route_reachable_message :
    getDispatch plainBuild (addRoutes ([⟨.mGet, lit "/:x", some 0⟩] ++
      [⟨.mGet, lit "/a/b", some 1⟩] ++ [⟨.mGet, lit "/a/:y", some 2⟩])).1 .mGet (lit "/a/b")
      .empty = .ok (some 1, .empty) :=
  (static_route_reachable_iff plainBuild [⟨.mGet, lit "/:x", some 0⟩]
    [⟨.mGet, lit "/a/:y", some 2⟩] ⟨.mGet, lit "/a/b", some 1⟩ rfl (by decide) .empty).mpr
    (Or.inl (by decide))

/-- The route of one slash is accepted and answers nothing. -/
theorem slash_route_unreachable :
    ((addRoutes ([] : List (RouteCall Nat))).1.addRoute ⟨.mGet, lit "/", some 0⟩).2 = .ok () ∧
      (∀ s ∈ dispatchSplit (lit "/"), dynamicName s = none) ∧
      getDispatch plainBuild (addRoutes [⟨.mGet, lit "/", some 0⟩]).1 .mGet (lit "/") .empty =
        .ok ((none : StdFunction Nat), .empty) :=
  ⟨rfl, by decide, by decide⟩

end Router

end HttpCpp
