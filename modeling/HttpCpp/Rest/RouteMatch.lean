import HttpCpp.Rest.Dispatch

namespace HttpCpp

open PatternTable

variable {Fn : Type}

/-- Segment by segment, a static segment equal, a variable standing for a non-empty one. -/
def FullMatch (pattern : List (Seg Bytes Bytes)) (split : List Bytes) : Prop :=
  List.Forall₂ (fun x s => match x with | .static t => t = s | .dynamic _ => s ≠ []) pattern split

theorem fullMatch_of_fits (pattern : List (Seg Bytes Bytes)) (split : List Bytes)
    (hsplit : ∀ s ∈ split, s ≠ []) (h : Fits pattern split) : FullMatch pattern split := by
  induction split generalizing pattern with
  | nil =>
    cases pattern with
    | nil => exact List.Forall₂.nil
    | cons x pattern => simp [Fits] at h
  | cons s split ih =>
    obtain ⟨hs, hrest⟩ := List.forall_mem_cons.mp hsplit
    rcases pattern with _ | ⟨t | i, pattern⟩
    · simp [Fits] at h
    · obtain ⟨heq, hfits⟩ := (fits_static t s pattern split).mp h
      exact List.Forall₂.cons heq (ih pattern hrest hfits)
    · exact List.Forall₂.cons hs (ih pattern hrest ((fits_dynamic i s pattern split).mp h))

namespace Router

/-- An accepted route that the static-first walk arrives at gets dispatched. -/
theorem getDispatch_selected (bld : Build) (calls : List (RouteCall Fn)) (c : RouteCall Fn)
    (hc : c ∈ (addRoutes calls).2) (path : Bytes) (hlead : path.head? = some slash)
    (hsel : Selects (table calls) (pattern c.dispatchRoute) (front path)) (outParams : ParamMap)
    (hunbound : bld.ndebug ∨ Unbound outParams (idents (pattern c.dispatchRoute))) :
    ∃ params, getDispatch bld (addRoutes calls).1 c.method path outParams = .ok (c.fn, params) := by
  have hrep := addRoutes_represents calls
  have hcoh := represents_coherent _ _ hrep
  have hmem : (pattern c.dispatchRoute, c.method, c.fn) ∈ table calls :=
    (mem_routeTable _ _ _ _).mpr ⟨c, hc, rfl, rfl, rfl⟩
  obtain ⟨last, hlast⟩ := represents_reach _ _ hrep (front path)
  have hend : endFunction c.method (reach (table calls) (front path)) = c.fn :=
    (endFunction_eq last _ hlast c.method c.fn).mpr
      (Or.inl ((mem_reach _ hcoh _ _).mpr ⟨_, hmem, hsel⟩))
  rw [← bindings_idents _ hcoh _ _ _ hmem hsel] at hunbound
  rw [getDispatch_eq bld calls c.method path hlead outParams, if_pos hunbound,
    hend]
  exact ⟨_, rfl⟩

/-- A dispatched function belongs to an accepted route the static-first walk arrives at. -/
theorem getDispatch_some (bld : Build) (calls : List (RouteCall Fn)) (m : Method) (path : Bytes)
    (hlead : path.head? = some slash) (outParams params : ParamMap) (fn : Fn)
    (h : getDispatch bld (addRoutes calls).1 m path outParams = .ok (some fn, params)) :
    ∃ c ∈ (addRoutes calls).2, c.method = m ∧ c.fn = some fn ∧
      Selects (table calls) (pattern c.dispatchRoute) (front path) ∧
      (bld.ndebug ∨ Unbound outParams (idents (pattern c.dispatchRoute))) := by
  have hrep := addRoutes_represents calls
  have hcoh := represents_coherent _ _ hrep
  rw [getDispatch_eq bld calls m path hlead outParams] at h
  split_ifs at h with hunbound
  obtain ⟨hend, -⟩ := Prod.mk.inj (Except.ok.inj h)
  obtain ⟨last, hlast⟩ := represents_reach _ _ hrep (front path)
  rcases (endFunction_eq last _ hlast m (some fn)).mp hend with hin | ⟨hnone, -⟩
  · obtain ⟨p, hmem, hsel⟩ := (mem_reach _ hcoh _ _).mp hin
    obtain ⟨c, hc, hm, hfn, rfl⟩ := (mem_routeTable _ _ _ _).mp hmem
    rw [bindings_idents _ hcoh _ _ _ hmem hsel] at hunbound
    exact ⟨c, hc, hm, hfn, hsel, hunbound⟩
  · simp at hnone

/-- A dispatched function is registered for the whole path exactly when no segment is empty or the
route that leads to the first empty one has its function on a route for the whole path as well. -/
theorem getDispatch_fullPath_iff (bld : Build) (calls : List (RouteCall Fn)) (m : Method)
    (path : Bytes) (hlead : path.head? = some slash) (outParams : ParamMap) :
    (∀ fn params, getDispatch bld (addRoutes calls).1 m path outParams = .ok (some fn, params) →
      ∃ c ∈ (addRoutes calls).2, c.method = m ∧ c.fn = some fn ∧
        FullMatch (pattern c.dispatchRoute) (dispatchSplit path)) ↔
    (∀ s ∈ dispatchSplit path, s ≠ []) ∨
      ∀ c ∈ (addRoutes calls).2, c.method = m →
        Selects (table calls) (pattern c.dispatchRoute) (front path) →
        (bld.ndebug ∨ Unbound outParams (idents (pattern c.dispatchRoute))) →
        c.fn = none ∨ ∃ d ∈ (addRoutes calls).2, d.method = m ∧ d.fn = c.fn ∧
          FullMatch (pattern d.dispatchRoute) (dispatchSplit path) := by
  constructor
  · intro h
    right
    intro c hc hm hsel hunbound
    obtain ⟨params, hget⟩ := getDispatch_selected bld calls c hc path hlead hsel outParams hunbound
    cases hfn : c.fn with
    | none => exact Or.inl rfl
    | some fn => exact Or.inr (h fn params (by rw [← hm, hget, hfn]))
  · intro hx fn params hget
    rcases hx with hfull | h
    · obtain ⟨c, hc, hm, hfn, hsel, -⟩ :=
        getDispatch_some bld calls m path hlead outParams params fn hget
      rw [front_eq path hfull] at hsel
      exact ⟨c, hc, hm, hfn, fullMatch_of_fits _ _ hfull hsel.1⟩
    · obtain ⟨c, hc, hm, hfn, hsel, hunbound⟩ :=
        getDispatch_some bld calls m path hlead outParams params fn hget
      rcases h c hc hm hsel hunbound with hnone | ⟨d, hd, hdm, hdfn, hmatch⟩
      · simp [hfn] at hnone
      · exact ⟨d, hd, hdm, hdfn.trans hfn, hmatch⟩

theorem getDispatch_fullPath_message :
    ∃ c ∈ (addRoutes [⟨.mGet, lit "/a/:x", some 0⟩]).2, c.method = .mGet ∧ c.fn = some 0 ∧
      FullMatch (pattern c.dispatchRoute) (dispatchSplit (lit "/a/b")) :=
  (getDispatch_fullPath_iff plainBuild _ .mGet (lit "/a/b") (by decide) .empty).mpr
    (Or.inl (by decide)) 0 (StdMap.empty.emplace (lit "x") (lit "b")) (by decide)

/-- What follows an empty segment is not looked at. -/
theorem getDispatch_ignores_rest :
    getDispatch plainBuild (addRoutes [⟨.mGet, lit "/a", some 0⟩]).1 .mGet (lit "/a//b") .empty =
        .ok (some 0, .empty) ∧
      ¬∃ c ∈ (addRoutes [⟨.mGet, lit "/a", some 0⟩]).2, c.method = .mGet ∧ c.fn = some 0 ∧
        FullMatch (pattern c.dispatchRoute) (dispatchSplit (lit "/a//b")) := by
  refine ⟨by decide, ?_⟩
  have haccepted : (addRoutes [⟨.mGet, lit "/a", some 0⟩]).2 = [⟨.mGet, lit "/a", some 0⟩] := rfl
  rw [haccepted]
  intro h
  obtain ⟨c, hc, -, -, hmatch⟩ := h
  obtain rfl := List.mem_singleton.mp hc
  exact absurd hmatch.length_eq (by decide)

/-- An accepted route that fits the path and is not shadowed gets its function dispatched, and a
further route takes a served path away only by shadowing it. -/
theorem getDispatch_complete (bld : Build) (calls : List (RouteCall Fn)) (m : Method)
    (path : Bytes) (hlead : path.head? = some slash) (hpath : ∀ s ∈ dispatchSplit path, s ≠ []) :
    (∀ c ∈ (addRoutes calls).2, c.method = m →
      Fits (pattern c.dispatchRoute) (dispatchSplit path) →
      ¬Shadowed (table calls) (pattern c.dispatchRoute) (dispatchSplit path) →
      (bld.ndebug ∨ (idents (pattern c.dispatchRoute)).Nodup) →
      ∃ params, getDispatch bld (addRoutes calls).1 m path .empty = .ok (c.fn, params)) ∧
    ∀ fn params c, getDispatch bld (addRoutes calls).1 m path .empty = .ok (some fn, params) →
      (∀ d ∈ (addRoutes calls).2, d.method = m → d.fn = some fn →
        Selects (table calls) (pattern d.dispatchRoute) (dispatchSplit path) →
        ¬Shadowed (routeTable [c]) (pattern d.dispatchRoute) (dispatchSplit path)) →
      ∃ params', getDispatch bld (addRoutes (calls ++ [c])).1 m path .empty =
        .ok (some fn, params') := by
  have hfront := front_eq path hpath
  constructor
  · intro c hc hm hfits hsh hnodup
    subst hm
    rw [← unbound_empty] at hnodup
    exact getDispatch_selected bld calls c hc path hlead (hfront ▸ ⟨hfits, hsh⟩) .empty hnodup
  · intro fn params c hget hnew
    obtain ⟨d, hd, hm, hfn, hsel, hunbound⟩ :=
      getDispatch_some bld calls m path hlead .empty params fn hget
    have hshadow := hnew d hd hm hfn (hfront ▸ hsel)
    have hsel' : Selects (table (calls ++ [c])) (pattern d.dispatchRoute) (front path) := by
      refine ⟨hsel.1, ?_⟩
      rcases table_snoc calls c with hsame | hmore
      · rw [hsame]; exact hsel.2
      · rw [hmore, shadowed_append, not_or, hfront]
        exact ⟨hfront ▸ hsel.2, hshadow⟩
    have hd' : d ∈ (addRoutes (calls ++ [c])).2 := accepted_append calls [c] d hd
    subst hm
    obtain ⟨params', hget'⟩ :=
      getDispatch_selected bld (calls ++ [c]) d hd' path hlead hsel' .empty hunbound
    exact ⟨params', hfn ▸ hget'⟩

theorem getDispatch_complete_message :
    ∃ params, getDispatch plainBuild (addRoutes [⟨.mGet, lit "/a/b", some 0⟩,
      ⟨.mGet, lit "/:x/c", some 1⟩]).1 .mGet (lit "/d/c") .empty = .ok (some 1, params) := by
  have hpattern : pattern (lit "/:x/c") = [.dynamic (lit "x"), .static (lit "c")] := by decide
  have hpath : dispatchSplit (lit "/d/c") = [lit "d", lit "c"] := by decide
  apply (getDispatch_complete plainBuild [⟨.mGet, lit "/a/b", some 0⟩,
    ⟨.mGet, lit "/:x/c", some 1⟩] .mGet (lit "/d/c") (by decide) (by decide)).1
    ⟨.mGet, lit "/:x/c", some 1⟩ (by decide) rfl
  · rw [hpattern, hpath, fits_dynamic, fits_static, fits_nil]
    exact ⟨rfl, rfl⟩
  · rw [hpattern, hpath, shadowed_dynamic, shadowed_static]
    exact not_or.mpr ⟨by decide, shadowed_nil _ _⟩
  · exact Or.inr (by decide)

/-- A literal first segment hides the variable route that fits the path, and its registration
takes a served path away. -/
theorem getDispatch_hidden :
    getDispatch plainBuild (addRoutes [⟨.mGet, lit "/:x/c", some 1⟩]).1 .mGet (lit "/a/c") .empty =
        .ok (some 1, StdMap.empty.emplace (lit "x") (lit "a")) ∧
      (∃ c ∈ (addRoutes [⟨.mGet, lit "/:x/c", some 1⟩, ⟨.mGet, lit "/a/b", some 0⟩]).2,
        c.method = .mGet ∧ c.fn = some 1 ∧
        Fits (pattern c.dispatchRoute) (dispatchSplit (lit "/a/c"))) ∧
      getDispatch plainBuild (addRoutes [⟨.mGet, lit "/:x/c", some 1⟩,
        ⟨.mGet, lit "/a/b", some 0⟩]).1 .mGet (lit "/a/c") .empty = .ok (none, .empty) := by
  have hpattern : pattern (lit "/:x/c") = [.dynamic (lit "x"), .static (lit "c")] := by decide
  have hpath : dispatchSplit (lit "/a/c") = [lit "a", lit "c"] := by decide
  refine ⟨by decide, ⟨⟨.mGet, lit "/:x/c", some 1⟩, by decide, rfl, rfl, ?_⟩, by decide⟩
  rw [hpattern, hpath, fits_dynamic, fits_static, fits_nil]
  exact ⟨rfl, rfl⟩

end Router

end HttpCpp
