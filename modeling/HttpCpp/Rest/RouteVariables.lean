import HttpCpp.Rest.Registration

namespace HttpCpp

open PatternTable

variable {Fn : Type}

namespace UrlDispatchNode

/-- The dynamic segments that the lookup meets from a node on, each with the identifier it stands
under. -/
def dynamicSegments : List Bytes → UrlDispatchNode Fn → List (Bytes × Bytes)
  | [], _ => []
  | route :: split, node =>
    if route = [] then []
    else
      match Assoc.find route node.staticRoutes with
      | some next => dynamicSegments split next
      | none =>
        match node.dynamicRouteNode with
        | none => []
        | some next => (node.dynamicRouteIdentifier, route) :: dynamicSegments split next

theorem dynamicSegments_eq (split : List Bytes) (node : UrlDispatchNode Fn) (T : RouteTable Fn)
    (hrep : Represents node T) :
    dynamicSegments split node = bindings T (split.takeWhile (· ≠ [])) := by
  induction split generalizing node T with
  | nil => rfl
  | cons s split ih =>
    by_cases hs : s = []
    · subst hs
      simp [dynamicSegments, bindings]
    · rw [takeWhile_nonempty s split hs, dynamicSegments, if_neg hs]
      rcases represents_next node T hrep s with
        ⟨next, hfind, hnext, hbind⟩ | ⟨next, hfind, hnode, -, hnext, hbind⟩ |
          ⟨hfind, hnode, -, hbind⟩
      · rw [hfind, hbind]
        exact ih next _ hnext
      · rw [hfind, hnode, hbind, ← ih next _ hnext]
      · rw [hfind, hnode, hbind]

end UrlDispatchNode

/-- The variables of a route as far as the lookup can follow it, up to the first empty segment. -/
def routeVariables (dispatchRoute : Bytes) : List Bytes :=
  (Router.front dispatchRoute).filterMap dynamicName

theorem idents_segments (split : List Bytes) :
    idents (split.map segment) = split.filterMap dynamicName := by
  induction split with
  | nil => rfl
  | cons route split ih =>
    cases hname : dynamicName route with
    | none => simpa [segment, hname, idents] using ih
    | some name => simpa [segment, hname, idents] using ih

theorem segment_static (route s : Bytes) (h : segment route = .static s) : route = s := by
  cases hname : dynamicName route with
  | none => simpa [segment, hname] using h
  | some name => simp [segment, hname] at h

/-- A beginning of a pattern without the empty segment is one of what the lookup can follow. -/
theorem prefix_front (split : List Bytes) (front : List (Seg Bytes Bytes))
    (hpre : front <+: split.map segment) (hne : .static [] ∉ front) :
    front <+: (split.takeWhile (· ≠ [])).map segment := by
  induction split generalizing front with
  | nil => exact hpre
  | cons route split ih =>
    cases front with
    | nil => exact List.nil_prefix
    | cons x front =>
      obtain ⟨rfl, hrest⟩ := List.cons_prefix_cons.mp hpre
      have hroute : route ≠ [] := by
        intro hempty
        apply hne
        rw [hempty]
        exact List.mem_cons_self
      rw [UrlDispatchNode.takeWhile_nonempty route split hroute, List.map_cons,
        List.prefix_cons_inj]
      apply ih front hrest
      intro hin
      exact hne (List.mem_cons_of_mem _ hin)

/-- What a path has in the place of a segment of a route. -/
theorem fill_segment (other route : Bytes) :
    fill other (segment route) = if (dynamicName route).isSome then other else route := by
  cases hname : dynamicName route with
  | none => simp [segment, hname, fill]
  | some name => simp [segment, hname, fill]

/-- Some segment that is like no segment of a list. -/
theorem exists_otherSegment (segments : List Bytes) :
    ∃ other, other ∉ segments ∧ other ≠ [] ∧ slash ∉ other := by
  have hslash : slash ≠ colon := by decide
  refine ⟨List.replicate (segments.flatten.length + 1) colon, ?_, by simp, ?_⟩
  · intro hin
    have hlen := (List.sublist_flatten_of_mem hin).length_le
    rw [List.length_replicate] at hlen
    omega
  · intro hin
    exact hslash (List.eq_of_mem_replicate hin)

namespace Router

/-- The lookup runs into no assertion and gives every dynamic segment it meets to its identifier,
for every build and every path. -/
def Delivers (router : Router Fn) : Prop :=
  ∀ (bld : Build) (m : Method) (path : Bytes), path.head? = some slash →
    ∃ fn params, router.getDispatch bld m path .empty = .ok (fn, params) ∧
      ∀ e ∈ router.routerDispatch.dynamicSegments (dispatchSplit path),
        params.find e.1 = some e.2

/-- The lookups are faultless exactly when none binds a variable twice. -/
theorem delivers_iff_nodup (calls : List (RouteCall Fn)) :
    Delivers (addRoutes calls).1 ↔ ∀ path : Bytes, path.head? = some slash →
      ((bindings (table calls) (front path)).map Prod.fst).Nodup := by
  constructor
  · intro h path hlead
    obtain ⟨bld, hdebug⟩ : ∃ bld : Build, bld.ndebug = false :=
      ⟨{ plainBuild with ndebug := false }, rfl⟩
    obtain ⟨fn, params, hget, -⟩ := h bld .mGet path hlead
    rw [getDispatch_eq bld calls .mGet path hlead] at hget
    by_contra hno
    have hbound : ¬(bld.ndebug ∨
        Unbound .empty ((bindings (table calls) (front path)).map Prod.fst)) := by
      rw [hdebug, unbound_empty]
      exact not_or.mpr ⟨Bool.false_ne_true, hno⟩
    rw [if_neg hbound] at hget
    contradiction
  · intro h bld m path hlead
    have hnodup := h path hlead
    have hget := getDispatch_eq bld calls m path hlead .empty
    rw [if_pos (Or.inr ((unbound_empty _).mpr hnodup))] at hget
    refine ⟨_, _, hget, ?_⟩
    intro e he
    rw [UrlDispatchNode.dynamicSegments_eq _ _ _ (addRoutes_represents calls)] at he
    rw [StdMap.find_insertRange, StdMap.find_empty, Option.none_or]
    exact Assoc.find_of_mem e.1 e.2 _ hnodup he

/-- A path made of segments that a lookup can follow. -/
theorem exists_path (split : List Bytes) (hne : split ≠ [])
    (hsplit : ∀ s ∈ split, s ≠ [] ∧ slash ∉ s) :
    ∃ path : Bytes, path.head? = some slash ∧ front path = split := by
  have hcut : dispatchSplit (slash :: [slash].intercalate split) = split := by
    apply List.splitOn_intercalate
    · intro s hs
      exact (hsplit s hs).2
    · exact hne
  refine ⟨slash :: [slash].intercalate split, rfl, ?_⟩
  rw [front_eq _ (fun s hs => (hsplit s (hcut ▸ hs)).1), hcut]

/-- The lookup can follow a route with some segment in the place of its variables. -/
theorem fill_followed (dispatchRoute other : Bytes) (hother : other ≠ [] ∧ slash ∉ other) :
    ∀ s ∈ ((front dispatchRoute).map segment).map (fill other), s ≠ [] ∧ slash ∉ s := by
  intro s hs
  obtain ⟨x, hx, rfl⟩ := List.mem_map.mp hs
  obtain ⟨route, hroute, rfl⟩ := List.mem_map.mp hx
  have hread : route ≠ [] := by simpa using List.mem_takeWhile_imp hroute
  rw [fill_segment]
  split_ifs
  · exact hother
  · exact ⟨hread, splitOn_piece slash _ route ((List.takeWhile_prefix _).subset hroute)⟩

theorem routeTable_notStatic (calls : List (RouteCall Fn)) (other : Bytes)
    (hother : other ∉ calls.flatMap fun c => dispatchSplit c.dispatchRoute) :
    ∀ e ∈ routeTable calls, .static other ∉ e.1 := by
  intro e he hin
  obtain ⟨d, hd, -, -, hpattern⟩ := (mem_routeTable calls e.1 e.2.1 e.2.2).mp he
  rw [← hpattern] at hin
  obtain ⟨route, hroute, hsegment⟩ := List.mem_map.mp hin
  apply hother
  rw [← segment_static route other hsegment]
  exact List.mem_flatMap.mpr ⟨d, hd, hroute⟩

/-- Some path takes the lookup through all the variables of a route. -/
theorem exists_followingPath (calls : List (RouteCall Fn)) (hcoh : Coherent (routeTable calls))
    (c : RouteCall Fn) (hc : c ∈ calls) (hne : front c.dispatchRoute ≠ []) :
    ∃ path : Bytes, path.head? = some slash ∧
      (bindings (routeTable calls) (front path)).map Prod.fst = routeVariables c.dispatchRoute := by
  obtain ⟨other, hother, hfollow⟩ :=
    exists_otherSegment (calls.flatMap fun c => dispatchSplit c.dispatchRoute)
  have hmem : ((front c.dispatchRoute).map segment ++
      ((dispatchSplit c.dispatchRoute).dropWhile (· ≠ [])).map segment, c.method, c.fn) ∈
      routeTable calls := by
    rw [mem_routeTable, ← List.map_append]
    refine ⟨c, hc, rfl, rfl, ?_⟩
    rw [front, List.takeWhile_append_dropWhile]
    rfl
  have hnames := bindings_fill (routeTable calls) hcoh other
    (routeTable_notStatic calls other hother) _ _ _ hmem
  rw [idents_segments] at hnames
  obtain ⟨path, hlead, hpath⟩ :=
    exists_path _ (by simpa using hne) (fill_followed c.dispatchRoute other hfollow)
  refine ⟨path, hlead, ?_⟩
  rw [hpath, hnames, routeVariables]

/-- What a lookup binds are the first variables of some route. -/
theorem bindings_routeVariables (calls : List (RouteCall Fn))
    (hcoh : Coherent (routeTable calls)) (hne : routeTable calls ≠ []) (path : Bytes) :
    ∃ c ∈ calls, (bindings (routeTable calls) (front path)).map Prod.fst <+:
      routeVariables c.dispatchRoute := by
  obtain ⟨walked, ⟨⟨p, m, fn⟩, hmem, hpre⟩, hin, hnames⟩ :=
    bindings_front (routeTable calls) hcoh (front path) hne
  obtain ⟨c, hc, -, -, rfl⟩ := (mem_routeTable calls p m fn).mp hmem
  have hread : .static [] ∉ walked := by
    intro hs
    have hempty := List.mem_takeWhile_imp (hin [] hs)
    simp at hempty
  obtain ⟨rest, hrest⟩ := prefix_front _ walked hpre hread
  refine ⟨c, hc, idents rest, ?_⟩
  rw [hnames, routeVariables, ← idents_segments, ← idents_append, hrest]
  rfl

/-- Registered routes let every lookup through exactly when none of them names a variable twice as
far as it can be followed. -/
theorem delivers_iff (calls : List (RouteCall Fn)) (h : AddsAll calls) :
    Delivers (addRoutes calls).1 ↔ ∀ c ∈ calls, (routeVariables c.dispatchRoute).Nodup := by
  have htable := table_addsAll calls h
  have hcoh := represents_coherent _ _ (addRoutes_represents calls)
  rw [delivers_iff_nodup, htable]
  rw [htable] at hcoh
  constructor
  · intro hall c hc
    by_cases hempty : front c.dispatchRoute = []
    · simp [routeVariables, hempty]
    · obtain ⟨path, hlead, hnames⟩ := exists_followingPath calls hcoh c hc hempty
      exact hnames ▸ hall path hlead
  · intro hall path hlead
    by_cases hempty : routeTable calls = []
    · rw [hempty, bindings_nil]
      exact List.nodup_nil
    · obtain ⟨c, hc, hpre⟩ := bindings_routeVariables calls hcoh hempty path
      exact (hall c hc).sublist hpre.sublist

theorem delivers_message :
    Delivers (addRoutes [⟨.mGet, lit "/a/:x", some 0⟩, ⟨.mPost, lit "/:y/b//:y", some 1⟩]).1 :=
  (delivers_iff _ ((addsAll_iff_accepted _).mpr (by decide))).mpr (by decide)

/-- A route may name two of its variables alike, or two routes together: the second value finds the
name taken, which stops a build with asserts and otherwise loses the value. -/
theorem delivers_not_repeated :
    AddsAll [⟨.mGet, lit "/:id/a", some 0⟩, ⟨.mGet, lit "/:id/:id", some 1⟩] ∧
      getDispatch { plainBuild with ndebug := false } (addRoutes [⟨.mGet, lit "/:id/a", some 0⟩,
        ⟨.mGet, lit "/:id/:id", some 1⟩]).1 .mGet (lit "/1/2") .empty = .error .assertion ∧
      getDispatch plainBuild (addRoutes [⟨.mGet, lit "/:id/a", some 0⟩,
        ⟨.mGet, lit "/:id/:id", some 1⟩]).1 .mGet (lit "/1/2") .empty =
          .ok (some 1, StdMap.empty.emplace (lit "id") (lit "1")) :=
  ⟨(addsAll_iff_accepted _).mpr (by decide), by decide, by decide⟩

end Router

end HttpCpp
