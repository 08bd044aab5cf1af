import HttpCpp.Rest.RestService
import HttpCpp.Rest.RouteMatch

namespace HttpCpp

open PatternTable

variable {Fn : Type}

/-- The handler of a resource with its parameters; none when the function is empty. -/
def RestResource.handler (r : RestResource Fn) : Option (Fn × ParamMap) := r.fn.map (·, r.params)

namespace RestService

/-- The variables on the way of a string are different or need not be. -/
def Unrepeated (bld : Build) (calls : List (RouteCall Fn)) (s : Bytes) : Prop :=
  bld.ndebug ∨ ((bindings (Router.table calls) (Router.front s)).map Prod.fst).Nodup

instance (bld : Build) (calls : List (RouteCall Fn)) (s : Bytes) :
    Decidable (Unrepeated bld calls s) := inferInstanceAs (Decidable (_ ∨ _))

/-- An accepted route is selected for the string, and the string gives its variables the values. -/
def Serves (calls : List (RouteCall Fn)) (m : Method) (s : Bytes) (fn : Fn) (params : ParamMap) :
    Prop :=
  ∃ c ∈ (Router.addRoutes calls).2, c.method = m ∧ c.fn = some fn ∧
    Selects (Router.table calls) (pattern c.dispatchRoute) (Router.front s) ∧
    params = StdMap.empty.insertRange (assignments (pattern c.dispatchRoute) (Router.front s))

/-- Two strings stop the process alike, or are served alike. -/
def RoutedAlike (bld : Build) (calls : List (RouteCall Fn)) (m : Method) (a b : Bytes) : Prop :=
  (Unrepeated bld calls a ↔ Unrepeated bld calls b) ∧
    (Unrepeated bld calls b → ∀ fn params, Serves calls m a fn params ↔ Serves calls m b fn params)

/-- What the flat table gives for a string. -/
def tableHandler (calls : List (RouteCall Fn)) (m : Method) (s : Bytes) :
    Option (Fn × ParamMap) :=
  (endFunction m (reach (Router.table calls) (Router.front s))).map
    (·, StdMap.empty.insertRange (bindings (Router.table calls) (Router.front s)))

theorem tableHandler_some (calls : List (RouteCall Fn)) (m : Method) (s : Bytes) (fn : Fn)
    (params : ParamMap) : tableHandler calls m s = some (fn, params) ↔
      Serves calls m s fn params := by
  have hrep := Router.addRoutes_represents calls
  have hcoh := represents_coherent _ _ hrep
  obtain ⟨last, hlast⟩ := represents_reach _ _ hrep (Router.front s)
  simp only [tableHandler, Option.map_eq_some_iff, Prod.mk.injEq]
  constructor
  · intro h
    obtain ⟨f, hend, rfl, rfl⟩ := h
    rcases (endFunction_eq last _ hlast m (some f)).mp hend with hin | ⟨hnone, -⟩
    · obtain ⟨p, hmem, hsel⟩ := (mem_reach _ hcoh _ _).mp hin
      obtain ⟨c, hc, hm, hfn, rfl⟩ := (mem_routeTable _ _ _ _).mp hmem
      exact ⟨c, hc, hm, hfn, hsel, by rw [bindings_assignments _ hcoh _ _ _ hmem hsel]⟩
    · simp at hnone
  · intro h
    obtain ⟨c, hc, hm, hfn, hsel, rfl⟩ := h
    have hmem : (pattern c.dispatchRoute, m, some fn) ∈ Router.table calls :=
      (mem_routeTable _ _ _ _).mpr ⟨c, hc, hm, hfn, rfl⟩
    refine ⟨fn, ?_, rfl, by rw [bindings_assignments _ hcoh _ _ _ hmem hsel]⟩
    exact (endFunction_eq last _ hlast m (some fn)).mpr
      (Or.inl ((mem_reach _ hcoh _ _).mpr ⟨_, hmem, hsel⟩))

/-- The factory's handler for an absolute path, read off the flat table. -/
theorem createHandle_handler (bld : Build) (calls : List (RouteCall Fn)) (grequest : GenericRequest)
    (hlead : grequest.requestUri.head? = some slash) :
    (ExternalFactory.createHandle (createResource bld (Router.addRoutes calls).1) grequest).map
        RestResource.handler =
      if Unrepeated bld calls grequest.requestUri then
        .ok (tableHandler calls grequest.method grequest.requestUri)
      else .error .assertion := by
  have hget := Router.getDispatch_eq bld calls grequest.method grequest.requestUri hlead .empty
  have hbound : Unrepeated bld calls grequest.requestUri ↔ bld.ndebug ∨ Unbound .empty
      ((bindings (Router.table calls) (Router.front grequest.requestUri)).map Prod.fst) := by
    rw [unbound_empty, Unrepeated]
  by_cases hnames : Unrepeated bld calls grequest.requestUri
  · rw [if_pos (hbound.mp hnames)] at hget
    rw [if_pos hnames, ExternalFactory.createHandle, createResource, hget]
    rfl
  · rw [if_neg (mt hbound.mpr hnames)] at hget
    rw [if_neg hnames, ExternalFactory.createHandle, createResource, hget]
    rfl

/-- The factory selects alike for two absolute paths exactly when the routes serve them alike. -/
theorem createHandle_alike_iff (bld : Build) (calls : List (RouteCall Fn))
    (grequest grequest' : GenericRequest) (hmethod : grequest'.method = grequest.method)
    (hlead : grequest.requestUri.head? = some slash)
    (hlead' : grequest'.requestUri.head? = some slash) :
    (ExternalFactory.createHandle (createResource bld (Router.addRoutes calls).1) grequest).map
        RestResource.handler =
      (ExternalFactory.createHandle (createResource bld (Router.addRoutes calls).1) grequest').map
        RestResource.handler ↔
      RoutedAlike bld calls grequest.method grequest.requestUri grequest'.requestUri := by
  rw [createHandle_handler bld calls grequest hlead,
    createHandle_handler bld calls grequest' hlead', hmethod, RoutedAlike]
  by_cases ha : Unrepeated bld calls grequest.requestUri
  · by_cases hb : Unrepeated bld calls grequest'.requestUri
    · simp only [ha, hb, if_true, Except.ok.injEq, true_and, forall_const, ← tableHandler_some]
      rw [Option.ext_iff, Prod.forall]
    · simp [ha, hb]
  · by_cases hb : Unrepeated bld calls grequest'.requestUri
    · simp [ha, hb]
    · simp [ha, hb]

/-- Without a leading slash the process ends, with one it does not end that way. -/
theorem createHandle_unled (bld : Build) (calls : List (RouteCall Fn))
    (grequest grequest' : GenericRequest) (hunled : grequest.requestUri.head? ≠ some slash)
    (hlead' : grequest'.requestUri.head? = some slash) :
    (ExternalFactory.createHandle (createResource bld (Router.addRoutes calls).1) grequest).map
        RestResource.handler ≠
      (ExternalFactory.createHandle (createResource bld (Router.addRoutes calls).1) grequest').map
        RestResource.handler := by
  rw [createHandle_handler bld calls grequest' hlead']
  split_ifs
  · simp [ExternalFactory.createHandle, createResource, Router.getDispatch, leadingSlash, hunled,
      bind, Except.bind, noexcept, Except.map]
  · simp [ExternalFactory.createHandle, createResource, Router.getDispatch, leadingSlash, hunled,
      bind, Except.bind, noexcept, Fault.isException, Except.map]

/-- What follows two slashes is not looked at. -/
theorem front_doubleSlash (x y : Bytes) :
    Router.front (x ++ slash :: slash :: y) = ((x.drop 1).splitOn slash).takeWhile (· ≠ []) := by
  cases x with
  | nil => simp [Router.front, dispatchSplit, List.splitOn_cons_eq_if_modifyHead]
  | cons b x =>
    have hsplit : dispatchSplit (b :: x ++ slash :: slash :: y) =
        x.splitOn slash ++ [] :: y.splitOn slash := by
      show (x ++ slash :: slash :: y).splitOn slash = _
      have hempty := List.splitOn_append_cons_self (a := slash) [] y
      rw [List.splitOn_append_cons_self]
      simpa using hempty
    rw [Router.front, hsplit, List.takeWhile_append]
    split_ifs with hall
    · simpa using (List.takeWhile_prefix _).eq_of_length hall |>.symm
    · rfl

theorem routedAlike_doubleSlash (bld : Build) (calls : List (RouteCall Fn)) (m : Method)
    (path tail : Bytes) (h : [slash, slash] <:+: path) :
    RoutedAlike bld calls m (path ++ tail) path := by
  obtain ⟨x, y, rfl⟩ := h
  have hfront : Router.front (x ++ [slash, slash] ++ y ++ tail) =
      Router.front (x ++ [slash, slash] ++ y) := by
    have hcut := front_doubleSlash x (y ++ tail)
    rw [← front_doubleSlash x y] at hcut
    simpa using hcut
  simp only [RoutedAlike, Unrepeated, Serves, hfront, implies_true, and_self]

end RestService

end HttpCpp
