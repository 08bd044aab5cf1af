import HttpCpp.Framework.Regex
import HttpCpp.Protocol.Structure

namespace HttpCpp

/-- `std::function`, empty when it is `none`. -/
abbrev StdFunction (Fn : Type*) := Option Fn

structure UrlDispatchNode (Fn : Type) where
  staticRoutes : List (Bytes × UrlDispatchNode Fn)
  dynamicRouteIdentifier : Bytes
  dynamicRouteNode : Option (UrlDispatchNode Fn)
  functions : StdMap Method (StdFunction Fn)

abbrev ParamMap := StdMap Bytes Bytes

/-- The calls made on a router. -/
structure RouteCall (Fn : Type) where
  method : Method
  dispatchRoute : Bytes
  fn : StdFunction Fn
  deriving DecidableEq

def identStart (c : Byte) : Bool :=
  (97 ≤ c.val && c.val ≤ 122) || (65 ≤ c.val && c.val ≤ 90) || c.val = 95

def identPart (c : Byte) : Bool := identStart c || (48 ≤ c.val && c.val ≤ 57)

/-- The pattern `:([a-zA-Z_][a-zA-Z0-9_]*)`. -/
def dynamicRoute : Regex Byte :=
  .seq (.literal (lit ":")) (.group 1 (.seq (.one identStart) (.star identPart)))

/-- The variable name of a dynamic route segment. -/
def dynamicName (route : Bytes) : Option Bytes :=
  (dynamicRoute.regexMatch route).map fun captures => captures.get 1

/-- A segment is dynamic when it is a colon and an identifier. -/
theorem dynamicName_some (route name : Bytes) :
    dynamicName route = some name ↔ route = lit ":" ++ name ∧
      ∃ x a, name = x :: a ∧ identStart x ∧ ∀ y ∈ a, identPart y := by
  have hrun : ∀ c, (c, []) ∈ dynamicRoute.run route ↔ ∃ x a, identStart x ∧
      (∀ y ∈ a, identPart y) ∧ route = lit ":" ++ x :: a ∧ c = [(1, x :: a)] := by
    intro c
    simp only [dynamicRoute, Regex.mem_run_seq, Regex.mem_run_literal, Regex.mem_run_group,
      Regex.mem_run_one, Regex.mem_run_star]
    constructor
    · intro h
      obtain ⟨c₁, u, c₂, ⟨rfl, rfl⟩, ⟨c', g, hname, hg, rfl⟩, rfl⟩ := h
      obtain ⟨d₁, v, d₂, ⟨rfl, x, hx, rfl⟩, ⟨rfl, a, ha, rfl⟩, rfl⟩ := hname
      simp only [List.append_nil] at hg ⊢
      exact ⟨x, a, hx, ha, rfl, by rw [← hg]; rfl⟩
    · intro h
      obtain ⟨x, a, hx, ha, rfl, rfl⟩ := h
      exact ⟨[], x :: a, _, ⟨rfl, rfl⟩, ⟨[], x :: a, ⟨[], a, [], ⟨rfl, x, hx, rfl⟩,
        ⟨rfl, a, ha, by simp⟩, rfl⟩, by simp, rfl⟩, rfl⟩
  simp only [dynamicName, Option.map_eq_some_iff]
  constructor
  · intro h
    obtain ⟨c, hc, rfl⟩ := h
    obtain ⟨x, a, hx, ha, hroute, rfl⟩ := (hrun c).mp (Regex.regexMatch_mem _ _ c hc)
    exact ⟨hroute, x, a, rfl, hx, ha⟩
  · intro h
    obtain ⟨rfl, x, a, rfl, hx, ha⟩ := h
    have hsome : (dynamicRoute.regexMatch (lit ":" ++ x :: a)).isSome :=
      (Regex.regexMatch_isSome _ _).mpr ⟨_, (hrun _).mpr ⟨x, a, hx, ha, rfl, rfl⟩⟩
    obtain ⟨c, hc⟩ := Option.isSome_iff_exists.mp hsome
    obtain ⟨y, b, -, -, heq, rfl⟩ := (hrun c).mp (Regex.regexMatch_mem _ _ c hc)
    exact ⟨_, hc, (List.append_cancel_left heq).symm⟩

def leadingSlash (dispatchRoute : Bytes) : Except Fault Unit :=
  if dispatchRoute.head? = some slash then .ok ()
  else .error (.invalidArgument
    (lit "The dispatch route must be non empty and start with a leading '/'."))

/-- The segments after the leading '/'. -/
def dispatchSplit (dispatchRoute : Bytes) : List Bytes := (dispatchRoute.drop 1).splitOn slash

namespace UrlDispatchNode

variable {Fn : Type}

def new : UrlDispatchNode Fn := ⟨[], [], none, .empty⟩

/-- The insertion loop of `add_route` from one node on: the node as it is left, with or without
an exception. -/
def addSegments (m : Method) (fn : StdFunction Fn) :
    List Bytes → Bytes → UrlDispatchNode Fn → UrlDispatchNode Fn × Except Fault Unit
  | [], _, node =>
    match node.functions.find m with
    | some _ => (node, .error (.invalidArgument
        (lit "The method is already implemented on the endpoint specified.")))
    | none => ({ node with functions := node.functions.emplace m fn }, .ok ())
  | route :: split, totalPath, node =>
    let totalPath := totalPath ++ lit "/" ++ route
    match dynamicName route with
    | some name =>
      if node.dynamicRouteIdentifier = [] then
        let child := addSegments m fn split totalPath new
        ({ node with dynamicRouteIdentifier := name, dynamicRouteNode := some child.1 }, child.2)
      else if node.dynamicRouteIdentifier ≠ name then
        (node, .error (.invalidArgument
          (lit "A dynamic route with a different name already exists at '" ++ totalPath ++
            lit "'.")))
      else
        match node.dynamicRouteNode with
        | none => (node, .error .nullPointer)
        | some next =>
          let child := addSegments m fn split totalPath next
          ({ node with dynamicRouteNode := some child.1 }, child.2)
    | none =>
      match Assoc.find route node.staticRoutes with
      | none =>
        let child := addSegments m fn split totalPath new
        ({ node with staticRoutes := Assoc.emplace route child.1 node.staticRoutes }, child.2)
      | some next =>
        let child := addSegments m fn split totalPath next
        ({ node with staticRoutes := Assoc.update route child.1 node.staticRoutes }, child.2)

/-- The lookup after the loop of `get_dispatch`. -/
def functionFor (m : Method) (node : UrlDispatchNode Fn) : StdFunction Fn :=
  (node.functions.find m).getD none

/-- The lookup loop of `get_dispatch` from one node on. -/
def lookup (bld : Build) (m : Method) :
    List Bytes → ParamMap → UrlDispatchNode Fn → Except Fault (StdFunction Fn × ParamMap)
  | [], outParams, node => .ok (node.functionFor m, outParams)
  | route :: split, outParams, node =>
    if route = [] then .ok (node.functionFor m, outParams)
    else
      match Assoc.find route node.staticRoutes with
      | some next => lookup bld m split outParams next
      | none =>
        match node.dynamicRouteNode with
        | none => .ok (none, outParams)
        | some next => do
          bld.assert (node.dynamicRouteIdentifier ≠ [])
          bld.assert (outParams.find node.dynamicRouteIdentifier).isNone
          lookup bld m split (outParams.emplace node.dynamicRouteIdentifier route) next

end UrlDispatchNode

structure Router (Fn : Type) where
  routerDispatch : UrlDispatchNode Fn

namespace Router

variable {Fn : Type}

def new : Router Fn := ⟨.new⟩

def addRoute (router : Router Fn) (c : RouteCall Fn) : Router Fn × Except Fault Unit :=
  match leadingSlash c.dispatchRoute with
  | .error e => (router, .error e)
  | .ok () =>
    let root := router.routerDispatch.addSegments c.method c.fn (dispatchSplit c.dispatchRoute) []
    (⟨root.1⟩, root.2)

def getDispatch (bld : Build) (router : Router Fn) (m : Method) (dispatchRoute : Bytes)
    (outParams : ParamMap) : Except Fault (StdFunction Fn × ParamMap) := do
  leadingSlash dispatchRoute
  router.routerDispatch.lookup bld m (dispatchSplit dispatchRoute) outParams

/-- One call of `add_route` whose exception the caller catches: the router and the calls that did
not throw. -/
def call (s : Router Fn × List (RouteCall Fn)) (c : RouteCall Fn) :
    Router Fn × List (RouteCall Fn) :=
  match s.1.addRoute c with
  | (router, .ok ()) => (router, s.2 ++ [c])
  | (router, .error _) => (router, s.2)

/-- A fresh router after calls of `add_route`. -/
def addRoutes (calls : List (RouteCall Fn)) : Router Fn × List (RouteCall Fn) :=
  calls.foldl call (new, [])

end Router

end HttpCpp
