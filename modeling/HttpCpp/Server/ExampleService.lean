import HttpCpp.Server.Sites

namespace HttpCpp

namespace MyService

open PatternTable

/-- What a function of the example says about the message of an identifier. -/
def aboutMessage (text id : Bytes) : Bytes := text ++ (lit "\nid:" ++ id)

/-- The body that the example answers a path with, by the segments of the path before the first
empty one. -/
def text (m : Method) : List Bytes → Option Bytes
  | [a] => if a = lit "message" ∧ m = .mPut then some (lit "PUT message") else none
  | [a, id] =>
    if a = lit "message" ∧ m = .mGet then some (aboutMessage (lit "GET message") id)
    else if a = lit "message" ∧ m = .mDelete then some (aboutMessage (lit "DELETE message") id)
    else none
  | [a, id, b] =>
    if a = lit "message" ∧ b = lit "author" ∧ m = .mGet then
      some (aboutMessage (lit "GET author") id)
    else none
  | [a, id, b, c] =>
    if a = lit "message" ∧ b = lit "author" ∧ c = lit "friend" ∧ m = .mGet then
      some (aboutMessage (lit "GET friends") id)
    else none
  | _ => none

/-- The routes after `/message`. -/
def afterMessage : RouteTable Function :=
  [([.dynamic (lit "id")], .mGet, some .getMessage), ([], .mPut, some .putMessage),
    ([.dynamic (lit "id")], .mDelete, some .deleteMessage),
    ([.dynamic (lit "id"), .static (lit "author")], .mGet, some .getMessageAuthor),
    ([.dynamic (lit "id"), .static (lit "author"), .static (lit "friend")], .mGet,
      some .getMessageAuthorFriends)]

/-- The routes after `/message/:id`. -/
def afterId : RouteTable Function :=
  [([], .mGet, some .getMessage), ([], .mDelete, some .deleteMessage),
    ([.static (lit "author")], .mGet, some .getMessageAuthor),
    ([.static (lit "author"), .static (lit "friend")], .mGet, some .getMessageAuthorFriends)]

/-- The routes after `/message/:id/author`. -/
def afterAuthor : RouteTable Function :=
  [([], .mGet, some .getMessageAuthor), ([.static (lit "friend")], .mGet,
    some .getMessageAuthorFriends)]

/-- The route after `/message/:id/author/friend`. -/
def afterFriend : RouteTable Function := [([], .mGet, some .getMessageAuthorFriends)]

theorem table_setup : Router.table setup = afterMessage.map fun e =>
    (.static (lit "message") :: e.1, e.2) := by
  decide

theorem next_setup (s : Bytes) : next (Router.table setup) s =
    if s = lit "message" then afterMessage else [] := by
  rw [table_setup]
  by_cases hs : lit "message" = s
  · subst hs
    decide
  · simp [next, derive, strip, deriveDynamic, afterMessage, hs, Ne.symm hs]

theorem next_afterMessage (s : Bytes) : next afterMessage s = afterId := by
  simp [next, derive, strip, deriveDynamic, afterMessage, afterId]

theorem next_afterId (s : Bytes) : next afterId s =
    if s = lit "author" then afterAuthor else [] := by
  by_cases hs : lit "author" = s
  · subst hs
    decide
  · simp [next, derive, strip, deriveDynamic, afterId, hs, Ne.symm hs]

theorem next_afterAuthor (s : Bytes) : next afterAuthor s =
    if s = lit "friend" then afterFriend else [] := by
  by_cases hs : lit "friend" = s
  · subst hs
    decide
  · simp [next, derive, strip, deriveDynamic, afterAuthor, hs, Ne.symm hs]

theorem next_afterFriend (s : Bytes) : next afterFriend s = [] := by
  simp [next, derive, strip, deriveDynamic, afterFriend]

theorem bindings_setup (a : Bytes) (path : List Bytes) :
    bindings (Router.table setup) (a :: path) =
      if a = lit "message" then bindings afterMessage path else [] := by
  have hstatic : derive (.static (lit "message")) (Router.table setup) ≠ [] ∧
      headIdent (Router.table setup) = none := by decide
  rw [bindings, next_setup]
  by_cases ha : a = lit "message"
  · rw [if_pos ha, if_pos ha, ha, if_pos hstatic.1]
  · simp [ha, hstatic.2, bindings_nil]

/-- Whatever follows the identifier, it is the only thing bound. -/
theorem bindings_afterMessage (id : Bytes) (path : List Bytes) :
    bindings afterMessage (id :: path) = [(lit "id", id)] := by
  have hids : ∀ T ∈ [afterId, afterAuthor, afterFriend], headIdent T = none := by decide
  have hfriend : ∀ path, bindings afterFriend path = [] := by
    rintro (_ | ⟨s, path⟩)
    · rfl
    · simp [bindings, next_afterFriend, bindings_nil, hids afterFriend]
  have hauthor : ∀ path, bindings afterAuthor path = [] := by
    rintro (_ | ⟨s, path⟩)
    · rfl
    · rw [bindings, next_afterAuthor, hids afterAuthor (by simp)]
      by_cases hs : s = lit "friend" <;> simp [hs, hfriend, bindings_nil]
  have hid : ∀ path, bindings afterId path = [] := by
    rintro (_ | ⟨s, path⟩)
    · rfl
    · rw [bindings, next_afterId, hids afterId (by simp)]
      by_cases hs : s = lit "author" <;> simp [hs, hauthor, bindings_nil]
  have hnone : derive (.static id) afterMessage = [] := by simp [derive, strip, afterMessage]
  have hname : headIdent afterMessage = some (lit "id") := rfl
  rw [bindings, if_neg (not_not.mpr hnone), next_afterMessage, hid, hname]
  rfl

theorem text_other (m : Method) (a : Bytes) (path : List Bytes) (h : a ≠ lit "message") :
    text m (a :: path) = none := by
  rcases path with _ | ⟨id, _ | ⟨b, _ | ⟨c, _ | ⟨d, path⟩⟩⟩⟩ <;> simp [text, h]

/-- The function that the routes of the example select leaves the body for the path. -/
theorem tableHandler_text (m : Method) (s : Bytes) (grequest : GenericRequest)
    (response : GenericResponse) :
    (RestService.tableHandler setup m s).map (fun e => call e.1 ⟨grequest, e.2⟩ response) =
      (text m (Router.front s)).map fun body => ({ response with messageBody := body }, none) := by
  rw [RestService.tableHandler]
  rcases Router.front s with _ | ⟨a, path⟩
  · cases m <;> rfl
  · rw [bindings_setup, reach, List.foldl_cons, next_setup]
    by_cases ha : a = lit "message"
    · subst ha
      rcases path with _ | ⟨id, path⟩
      · cases m <;> rfl
      · rw [if_pos rfl, if_pos rfl, bindings_afterMessage, List.foldl_cons, next_afterMessage]
        rcases path with _ | ⟨b, path⟩
        · cases m <;> rfl
        · rw [List.foldl_cons, next_afterId]
          by_cases hb : b = lit "author"
          · subst hb
            rcases path with _ | ⟨c, path⟩
            · cases m <;> rfl
            · rw [if_pos rfl, List.foldl_cons, next_afterAuthor]
              by_cases hc : c = lit "friend"
              · subst hc
                rcases path with _ | ⟨d, path⟩
                · cases m <;> rfl
                · rw [if_pos rfl, List.foldl_cons, next_afterFriend, ← reach, reach_nil]
                  rfl
              · rw [if_neg hc, ← reach, reach_nil]
                rcases path with _ | ⟨d, path⟩ <;> simp [text, hc, endFunction]
          · rw [if_neg hb, ← reach, reach_nil]
            rcases path with _ | ⟨c, _ | ⟨d, path⟩⟩ <;> simp [text, hb, endFunction]
    · rw [if_neg ha, if_neg ha, ← reach, reach_nil, text_other m a path ha]
      rfl

/-- No path of the example binds a variable twice. -/
theorem setup_unrepeated (bld : Build) (s : Bytes) : RestService.Unrepeated bld setup s := by
  refine Or.inr ?_
  rcases Router.front s with _ | ⟨a, path⟩
  · exact List.nodup_nil
  · rw [bindings_setup]
    by_cases ha : a = lit "message"
    · rw [if_pos ha]
      rcases path with _ | ⟨id, path⟩
      · exact List.nodup_nil
      · rw [bindings_afterMessage]
        exact List.nodup_singleton _
    · rw [if_neg ha]
      exact List.nodup_nil

open HttpService HttpWorker

theorem defaultStatus_body (gresponse : GenericResponse) (body : Bytes) :
    defaultStatus { gresponse with messageBody := body } =
      { defaultStatus gresponse with messageBody := body } := by
  by_cases h : gresponse.statusCode = .httpUnknown <;> simp [defaultStatus, h]

theorem defaultStatus_fresh (garbage : Status) :
    (defaultStatus (.fresh garbage)).PlainHeaders := by
  rw [defaultStatus]
  split_ifs <;> exact plainHeaders_empty _ _ _

/-- What is read in the response of the example: 404 where it serves nothing, and otherwise the body
for the path, with the status that was left by chance or 200 where none was. -/
def Reads (garbage : Status) (m : Method) (segments : List Bytes) (d : HttpResponse.Decoded) :
    Prop :=
  match text m segments with
  | none => d.statusCode = 404 ∧ d.messageBody = []
  | some body => d.statusCode = (defaultStatus (.fresh garbage)).statusCode.val ∧
      d.messageBody = body

/-- Every request for a path of the example's website is answered with the text for that path; where
the example serves the path, the status that was left by chance has to be one that is known. -/
theorem siteAnswer_example (bld : Build) (websites : Websites (Service Function))
    (env : ResourceContext) (now : Moment) (frame : Bytes) (request : HttpRequest) (host : Host)
    (hparsed : ParsedFor bld frame request host) (hlead : request.requestUri.head? = some slash)
    (hservice : (host, .rest setup) ∈ websites.entries)
    (hknown : (text request.method (Router.front request.requestUri)).isSome →
      (defaultStatus (.fresh now.garbage)).statusCode.Known) :
    ∃ text d, siteAnswer bld websites env call now frame = some text ∧
      HttpResponse.decode text = some d ∧
      Reads now.garbage request.method (Router.front request.requestUri) d := by
  have hbody := tableHandler_text request.method request.requestUri request.toGeneric
    (.fresh now.garbage)
  have hleft : LeavesPlain call now request setup := by
    intro fn params hselected
    rw [hselected, Option.map_some] at hbody
    obtain ⟨body, hsome, hout⟩ := Option.map_eq_some_iff.mp hbody.symm
    refine ⟨_, hout.symm, ?_, ?_⟩
    · rw [defaultStatus_body]
      exact hknown (by simp [hsome])
    · rw [defaultStatus_body]
      exact defaultStatus_fresh now.garbage
  obtain ⟨text', d, htext, hdecode, hreads⟩ := siteAnswer_route bld websites env call now hparsed
    hlead setup hservice (setup_unrepeated bld request.requestUri) hleft
  refine ⟨text', d, htext, hdecode, ?_⟩
  rw [ReadsRoute] at hreads
  rw [Reads]
  cases hselected : RestService.tableHandler setup request.method request.requestUri with
  | none =>
    rw [hselected, Option.map_none] at hbody
    have hnone := Option.map_eq_none_iff.mp hbody.symm
    simpa only [hselected, hnone] using hreads
  | some e =>
    rw [hselected, Option.map_some] at hbody
    obtain ⟨body, hsome, hout⟩ := Option.map_eq_some_iff.mp hbody.symm
    simp only [hselected, left, ← hout] at hreads
    rw [defaultStatus_body] at hreads
    simpa only [hsome] using hreads

/-- The example service under the host `a`. -/
def restSite : Websites (Service Function) :=
  StdMap.empty.emplace (Host.atDefaultPort (lit "a")) (.rest setup)

theorem restSite_mem : (Host.atDefaultPort (lit "a"), Service.rest setup) ∈ restSite.entries := by
  rw [StdMap.mem_entries, restSite, StdMap.find_emplace, if_pos rfl]
  rfl

def messageFrame : Bytes := hostedFrame (lit "PUT") (lit "message") (lit "a") []

def messageRequest : HttpRequest := hostedRequest (lit "PUT") (lit "message") (lit "a") []

theorem messageFrame_parsed :
    ParsedFor plainBuild messageFrame messageRequest (Host.atDefaultPort (lit "a")) :=
  hostedFrame_parsed _ _ _ _ _ (by decide) (Or.inr ⟨rfl, rfl⟩) (by decide)
    (by decide) (lit_forall _ (by decide)) (List.forall_mem_nil _)

/-- Where the example serves nothing, what was left by chance is not sent. -/
theorem siteAnswer_example_message :
    (∃ text d, siteAnswer plainBuild restSite sampleContext call sampleMoment messageFrame =
          some text ∧
        HttpResponse.decode text = some d ∧ d.statusCode = 200 ∧
        d.messageBody = lit "PUT message") ∧
      ∃ text d, siteAnswer plainBuild restSite sampleContext call
          { sampleMoment with garbage := ⟨299, by decide⟩ } indexFrame = some text ∧
        HttpResponse.decode text = some d ∧ d.statusCode = 404 ∧ d.messageBody = [] := by
  have hget : text indexRequest.method (Router.front indexRequest.requestUri) = none := by
    rw [indexRequest, (hostedRequest_line _ _ _ _).1, (hostedRequest_line _ _ _ _).2]
    decide
  have hput : text messageRequest.method (Router.front messageRequest.requestUri) =
      some (lit "PUT message") := by
    rw [messageRequest, (hostedRequest_line _ _ _ _).1, (hostedRequest_line _ _ _ _).2]
    decide
  constructor
  · obtain ⟨text', d, htext, hdecode, hreads⟩ := siteAnswer_example plainBuild restSite
      sampleContext sampleMoment messageFrame messageRequest _ messageFrame_parsed
      (by rw [messageRequest, (hostedRequest_line _ _ _ _).2]; rfl) restSite_mem
      fun _ => by decide
    rw [Reads, hput] at hreads
    exact ⟨text', d, htext, hdecode, hreads.1.trans (by decide), hreads.2⟩
  · obtain ⟨text', d, htext, hdecode, hreads⟩ := siteAnswer_example plainBuild restSite
      sampleContext { sampleMoment with garbage := ⟨299, by decide⟩ } indexFrame indexRequest _
      indexFrame_parsed (by rw [indexRequest, (hostedRequest_line _ _ _ _).2]; rfl) restSite_mem
      fun hsome => by simp [hget] at hsome
    rw [Reads, hget] at hreads
    exact ⟨text', d, htext, hdecode, hreads⟩

end MyService

end HttpCpp
