import HttpCpp.Rest.Dispatch
import Mathlib.Data.List.Nodup

namespace HttpCpp

open PatternTable

variable {Fn : Type}

/-- An insertion goes through exactly when its route agrees with the variables of the table and is
not in it with the same method. The induction is on the segments, one node for each. -/
theorem UrlDispatchNode.addSegments_ok_iff (m : Method) (fn : StdFunction Fn) (split : List Bytes)
    (totalPath : Bytes) (node : UrlDispatchNode Fn) (T : RouteTable Fn)
    (hrep : Represents node T) :
    (addSegments m fn split totalPath node).2 = .ok () ↔
      Coherent (T ++ [(split.map segment, m, fn)]) ∧ ∀ fn', (split.map segment, m, fn') ∉ T := by
  induction split generalizing totalPath node T with
  | nil =>
    have hcoh := represents_coherent node T hrep
    obtain ⟨hf, -⟩ := hrep
    simp only [addSegments, List.map_nil, coherent_snoc_nil, hcoh, true_and, ← hf]
    cases hfind : node.functions.find m with
    | none => simp
    | some fn' => simp
  | cons route split ih =>
    -- what the node decides, and what is left to its child
    have hstep : (Coherent (T ++ [((route :: split).map segment, m, fn)]) ∧
          ∀ fn', ((route :: split).map segment, m, fn') ∉ T) ↔
        (∀ i j, segment route = .dynamic i → derive (.dynamic j) T ≠ [] → j = i) ∧
          Coherent (derive (segment route) T ++ [(split.map segment, m, fn)]) ∧
            ∀ fn', (split.map segment, m, fn') ∉ derive (segment route) T := by
      rw [List.map_cons, coherent_snoc_cons T (represents_coherent node T hrep), and_assoc]
      simp only [mem_derive]
    rw [hstep]
    rcases addSegments_cons m fn route split totalPath node with
      ⟨what, i, hseg, hident, hne, heq⟩ | ⟨hident, hnode, -⟩ | ⟨hadmits, totalPath', heq⟩
    · obtain ⟨next, -, -, hsome⟩ := represents_child node T hrep hident
      have hclash : ¬∀ i j, segment route = .dynamic i → derive (.dynamic j) T ≠ [] → j = i := by
        intro h
        exact hne (h i _ hseg hsome)
      simp [heq, hclash]
    · obtain ⟨next, hsome, -⟩ := represents_child node T hrep hident
      simp [hnode] at hsome
    · rw [heq, and_iff_right (represents_agrees node T hrep _ hadmits)]
      exact ih totalPath' _ _ (represents_childOrNew node T hrep (segment route))

/-- No insertion runs into a missing child: whatever it throws is `std::invalid_argument`. -/
theorem UrlDispatchNode.addSegments_invalid (m : Method) (fn : StdFunction Fn) (split : List Bytes)
    (totalPath : Bytes) (node : UrlDispatchNode Fn) (T : RouteTable Fn)
    (hrep : Represents node T) (e : Fault)
    (h : (addSegments m fn split totalPath node).2 = .error e) :
    ∃ what, e = .invalidArgument what := by
  induction split generalizing totalPath node T with
  | nil =>
    simp only [addSegments] at h
    split at h
    · exact ⟨_, (Except.error.inj h).symm⟩
    · simp at h
  | cons route split ih =>
    rcases addSegments_cons m fn route split totalPath node with
      ⟨what, i, -, -, -, heq⟩ | ⟨hident, hnode, -⟩ | ⟨-, totalPath', heq⟩
    · rw [heq] at h
      exact ⟨what, (Except.error.inj h).symm⟩
    · obtain ⟨next, hsome, -⟩ := represents_child node T hrep hident
      simp [hnode] at hsome
    · rw [heq] at h
      exact ih totalPath' _ _ (represents_childOrNew node T hrep (segment route)) h

namespace Router

/-- The calls go through, each on the router the earlier ones left. -/
def AddsAll (calls : List (RouteCall Fn)) : Prop :=
  ∀ before c after, calls = before ++ c :: after → ((addRoutes before).1.addRoute c).2 = .ok ()

theorem addsAll_snoc (calls : List (RouteCall Fn)) (c : RouteCall Fn) :
    AddsAll (calls ++ [c]) ↔ AddsAll calls ∧ ((addRoutes calls).1.addRoute c).2 = .ok () := by
  constructor
  · intro h
    refine ⟨?_, h calls c [] rfl⟩
    intro before d after hcalls
    apply h before d (after ++ [c])
    rw [hcalls, List.append_assoc, List.cons_append]
  · intro h before d after hcalls
    rcases List.eq_nil_or_concat after with rfl | ⟨rest, last, rfl⟩
    · obtain ⟨rfl, hd⟩ := List.append_inj' hcalls rfl
      obtain ⟨rfl, -⟩ := List.cons.inj hd
      exact h.2
    · rw [List.concat_eq_append, ← List.cons_append, ← List.append_assoc] at hcalls
      obtain ⟨hfront, -⟩ := List.append_inj' hcalls rfl
      exact h.1 before d rest hfront

theorem accepted_length (calls : List (RouteCall Fn)) :
    (addRoutes calls).2.length ≤ calls.length := by
  induction calls using List.reverseRecOn with
  | nil => exact Nat.le_refl 0
  | append_singleton calls c ih =>
    rw [addRoutes_snoc, List.length_append, List.length_singleton]
    cases ((addRoutes calls).1.addRoute c).2 with
    | ok _ =>
      rw [List.length_append, List.length_singleton]
      omega
    | error e => exact Nat.le_succ_of_le ih

/-- Calls that go through are the ones the router accepts. -/
theorem addsAll_iff_accepted (calls : List (RouteCall Fn)) :
    AddsAll calls ↔ (addRoutes calls).2 = calls := by
  induction calls using List.reverseRecOn with
  | nil => simp [AddsAll, addRoutes]
  | append_singleton calls c ih =>
    rw [addsAll_snoc, ih, addRoutes_snoc]
    cases ((addRoutes calls).1.addRoute c).2 with
    | ok u => simp
    | error e =>
      have hne : (addRoutes calls).2 ≠ calls ++ [c] := by
        intro heq
        have hlen := congrArg List.length heq
        rw [List.length_append, List.length_singleton] at hlen
        have hshort := accepted_length calls
        omega
      simp [hne]

theorem addRoute_ok_iff (calls : List (RouteCall Fn)) (c : RouteCall Fn) :
    ((addRoutes calls).1.addRoute c).2 = .ok () ↔ c.dispatchRoute.head? = some slash ∧
      Coherent (table calls ++ routeTable [c]) ∧
        ∀ fn, (pattern c.dispatchRoute, c.method, fn) ∉ table calls := by
  simp only [addRoute, leadingSlash]
  split_ifs with hlead
  · rw [and_iff_right hlead]
    exact UrlDispatchNode.addSegments_ok_iff c.method c.fn _ [] _ _ (addRoutes_represents calls)
  · simp [hlead]

theorem table_addsAll (calls : List (RouteCall Fn)) (h : AddsAll calls) :
    table calls = routeTable calls := by
  rw [table, (addsAll_iff_accepted calls).mp h]

/-- A route that no entry has with the method is the route and the method of no call. -/
theorem routeTable_fresh (calls : List (RouteCall Fn)) (c : RouteCall Fn) :
    (∀ fn, (pattern c.dispatchRoute, c.method, fn) ∉ routeTable calls) ↔
      (pattern c.dispatchRoute, c.method) ∉
        calls.map fun c => (pattern c.dispatchRoute, c.method) := by
  simp only [mem_routeTable, List.mem_map, Prod.mk.injEq]
  constructor
  · intro h hc
    obtain ⟨d, hd, hp, hm⟩ := hc
    exact h d.fn ⟨d, hd, hm, rfl, hp⟩
  · intro h fn hc
    obtain ⟨d, hd, hm, -, hp⟩ := hc
    exact h ⟨d, hd, hp, hm⟩

/-- What makes a list of calls go through does not mention their order: every route starts with a
slash, routes that agree up to a variable name it alike, no route and method come twice. -/
theorem addsAll_iff (calls : List (RouteCall Fn)) :
    AddsAll calls ↔ (∀ c ∈ calls, c.dispatchRoute.head? = some slash) ∧
      Coherent (routeTable calls) ∧
        (calls.map fun c => (pattern c.dispatchRoute, c.method)).Nodup := by
  induction calls using List.reverseRecOn with
  | nil => simp [AddsAll, routeTable, Coherent]
  | append_singleton calls c ih =>
    have htable : routeTable (calls ++ [c]) = routeTable calls ++ routeTable [c] := List.map_append
    rw [addsAll_snoc, htable, List.map_append, List.map_singleton, List.nodup_append_comm,
      List.singleton_append, List.nodup_cons, ← routeTable_fresh]
    constructor
    · intro h
      obtain ⟨hall, hok⟩ := h
      obtain ⟨hlead, hcoh, hfresh⟩ := (addRoute_ok_iff calls c).mp hok
      rw [table_addsAll calls hall] at hcoh hfresh
      refine ⟨?_, hcoh, hfresh, (ih.mp hall).2.2⟩
      intro d hd
      rcases List.mem_append.mp hd with hd | hd
      · exact (ih.mp hall).1 d hd
      · rw [List.mem_singleton.mp hd]
        exact hlead
    · intro h
      obtain ⟨hlead, hcoh, hfresh, hnodup⟩ := h
      have hall : AddsAll calls := by
        apply ih.mpr
        refine ⟨fun d hd => hlead d (List.mem_append_left _ hd), ?_, hnodup⟩
        intro e he e' he'
        exact hcoh e (List.mem_append_left _ he) e' (List.mem_append_left _ he')
      refine ⟨hall, (addRoute_ok_iff calls c).mpr ⟨hlead c (by simp), ?_, ?_⟩⟩
      · rw [table_addsAll calls hall]
        exact hcoh
      · rw [table_addsAll calls hall]
        exact hfresh

/-- Calls that go through go through in every order. -/
theorem addsAll_perm (calls calls' : List (RouteCall Fn)) (hperm : calls.Perm calls')
    (h : AddsAll calls) : AddsAll calls' := by
  obtain ⟨hlead, hcoh, hnodup⟩ := (addsAll_iff calls).mp h
  refine (addsAll_iff calls').mpr ⟨fun c hc => hlead c (hperm.mem_iff.mpr hc), ?_, ?_⟩
  · exact coherent_congr _ _ (fun e => (hperm.map _).mem_iff) hcoh
  · exact (hperm.map _).nodup_iff.mp hnodup

/-- Routers whose tables hold the same routes dispatch alike. -/
theorem getDispatch_congr (bld : Build) (calls calls' : List (RouteCall Fn))
    (h : ∀ e, e ∈ table calls ↔ e ∈ table calls') (m : Method) (path : Bytes)
    (outParams : ParamMap) : getDispatch bld (addRoutes calls).1 m path outParams =
      getDispatch bld (addRoutes calls').1 m path outParams := by
  by_cases hlead : path.head? = some slash
  · have hrep := addRoutes_represents calls
    have hrep' := addRoutes_represents calls'
    obtain ⟨hreach, hbind⟩ := walk_congr _ _ (represents_coherent _ _ hrep) h (front path)
    obtain ⟨last, hlast⟩ := represents_reach _ _ hrep (front path)
    obtain ⟨last', hlast'⟩ := represents_reach _ _ hrep' (front path)
    have hend : endFunction m (reach (table calls) (front path)) =
        endFunction m (reach (table calls') (front path)) := by
      apply (endFunction_eq last _ hlast m _).mpr
      simp only [hreach]
      exact (endFunction_eq last' _ hlast' m _).mp rfl
    rw [getDispatch_eq bld calls m path hlead, getDispatch_eq bld calls' m path hlead, hbind, hend]
  · simp only [getDispatch, leadingSlash, if_neg hlead]
    rfl

/-- Registration does not depend on the order of the calls. -/
theorem addRoutes_perm (calls calls' : List (RouteCall Fn)) (hperm : calls.Perm calls')
    (h : AddsAll calls) : AddsAll calls' ∧
      ∀ (bld : Build) (m : Method) (path : Bytes) (outParams : ParamMap),
        getDispatch bld (addRoutes calls).1 m path outParams =
          getDispatch bld (addRoutes calls').1 m path outParams := by
  have h' := addsAll_perm calls calls' hperm h
  refine ⟨h', ?_⟩
  intro bld m path outParams
  apply getDispatch_congr
  intro e
  rw [table_addsAll calls h, table_addsAll calls' h']
  exact (hperm.map _).mem_iff

theorem addRoutes_perm_message :
    AddsAll [⟨.mGet, lit "/:x/b", some 1⟩, ⟨.mPost, lit "/a", some 2⟩,
        ⟨.mGet, lit "/a", some 0⟩] ∧
      ∀ (bld : Build) (m : Method) (path : Bytes) (outParams : ParamMap),
        getDispatch bld (addRoutes [⟨.mGet, lit "/a", some 0⟩, ⟨.mGet, lit "/:x/b", some 1⟩,
            ⟨.mPost, lit "/a", some 2⟩]).1 m path outParams =
          getDispatch bld (addRoutes [⟨.mGet, lit "/:x/b", some 1⟩, ⟨.mPost, lit "/a", some 2⟩,
            ⟨.mGet, lit "/a", some 0⟩]).1 m path outParams :=
  addRoutes_perm _ _ (@List.perm_append_comm _ [_] [_, _])
    ((addsAll_iff_accepted _).mpr (by decide))

/-- A call that throws adds no node, no identifier and no function; what it throws is
`std::invalid_argument`. -/
theorem addRoute_atomic (calls : List (RouteCall Fn)) (c : RouteCall Fn) (e : Fault)
    (h : ((addRoutes calls).1.addRoute c).2 = .error e) :
    ((addRoutes calls).1.addRoute c).1 = (addRoutes calls).1 ∧
      ∃ what, e = .invalidArgument what := by
  simp only [addRoute] at h ⊢
  cases hlead : leadingSlash c.dispatchRoute with
  | error e' =>
    simp only [hlead, Except.error.injEq] at h ⊢
    subst h
    simp only [leadingSlash] at hlead
    split_ifs at hlead with hslash
    exact ⟨trivial, _, (Except.error.inj hlead).symm⟩
  | ok u =>
    simp only [hlead] at h ⊢
    refine ⟨?_, ?_⟩
    · rw [UrlDispatchNode.addSegments_error _ _ _ _ _ e h]
    · exact UrlDispatchNode.addSegments_invalid _ _ _ _ _ _ (addRoutes_represents calls) e h

theorem addRoute_atomic_message :
    ((addRoutes [⟨.mGet, lit "/a/:x", some 0⟩]).1.addRoute ⟨.mGet, lit "/a/:y/b", some 1⟩).1 =
        (addRoutes [⟨.mGet, lit "/a/:x", some 0⟩]).1 ∧
      ∃ what, Fault.invalidArgument
          (lit "A dynamic route with a different name already exists at '/a/:y'.") =
        .invalidArgument what :=
  addRoute_atomic [⟨.mGet, lit "/a/:x", some 0⟩] ⟨.mGet, lit "/a/:y/b", some 1⟩ _
    (by decide)

end Router

end HttpCpp
