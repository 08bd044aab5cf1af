import HttpCpp.Server.Chunking
import HttpCpp.Server.Exchange
import HttpCpp.Server.Worker

namespace HttpCpp
namespace Exchange

open HttpServer

variable {World : Type}

/-- The data messages of a client, in the order they came in. -/
def requests (c : ZmqIdentity) (s : Exchange World) : List Arrival :=
  (dataReceived s).filter (·.message.id = c)

/-- The frames written for a client, the closing ones included. -/
def writtenTo (c : ZmqIdentity) (s : Exchange World) : List Bytes := framesOf c (sent s)

/-- What a client is sent: the frames before the empty one that closes its connection. -/
def delivered (c : ZmqIdentity) (s : Exchange World) : List Bytes :=
  (writtenTo c s).takeWhile (· ≠ [])

/-- Nothing of the client is under way, and no worker failed on it. -/
def Done (c : ZmqIdentity) (s : Exchange World) : Prop :=
  ∀ a ∈ waiting s ++ handling s ++ returning s ++ s.abandoned, a.message.id ≠ c

instance (c : ZmqIdentity) (s : Exchange World) : Decidable (Done c s) :=
  inferInstanceAs (Decidable (∀ a ∈ _, _))

/-- The client is sent one response for each of its requests, in their order. -/
def InOrder (answer : World → Bytes → Option Bytes) (c : ZmqIdentity) (s : Exchange World) :
    Prop :=
  List.Forall₂ (fun text a => ∃ world, answer world a.message.frame = some text) (delivered c s)
    (requests c s)

/-- The responses to a client, in the order they were forwarded. -/
def responsesTo (c : ZmqIdentity) (s : Exchange World) : List (Reply World) :=
  (responses s).filter (·.message.id = c)

/-- Every response to a client is followed by the empty frame. -/
theorem writtenTo_eq (c : ZmqIdentity) (s : Exchange World) :
    writtenTo c s = (responsesTo c s).flatMap fun reply => [reply.message.frame, []] := by
  simp only [writtenTo, sent, responsesTo, responses]
  induction s.answered with
  | nil => rfl
  | cons reply answered ih =>
    have hwire : Message.frame ⟨reply.message.id, [reply.message.frame]⟩ = reply.message.frame := by
      simp [Message.frame]
    have hclose : Message.frame ⟨reply.message.id, [[]]⟩ = [] := rfl
    rw [List.flatMap_cons, framesOf_append, ih]
    by_cases hframe : reply.message.frame = []
    · simp [forwardAsStream, hframe, framesOf]
    · by_cases hid : reply.message.id = c
      · rw [hid] at hwire hclose
        simp [forwardAsStream, hframe, framesOf, hid, hwire, hclose]
      · simp [forwardAsStream, hframe, framesOf, hid]

theorem responsesTo_frame (c : ZmqIdentity) (s : Exchange World) (reply : Reply World)
    (h : reply ∈ responsesTo c s) : reply.message.frame ≠ [] := by
  obtain ⟨hresponse, -⟩ := List.mem_filter.mp h
  simpa using (List.mem_filter.mp hresponse).2

/-- A client is sent the first response to it, and then its connection is closed. -/
theorem delivered_eq (c : ZmqIdentity) (s : Exchange World) :
    responsesTo c s = [] ∧ delivered c s = [] ∧ writtenTo c s = [] ∨
      ∃ reply rest, reply ∈ responsesTo c s ∧ delivered c s = [reply.message.frame] ∧
        writtenTo c s = reply.message.frame :: [] :: rest := by
  cases hto : responsesTo c s with
  | nil => simp [delivered, writtenTo_eq, hto]
  | cons reply rest =>
    have hframe := responsesTo_frame c s reply (by simp [hto])
    refine Or.inr ⟨reply, rest.flatMap fun reply => [reply.message.frame, []], by simp, ?_, ?_⟩
    · simp [delivered, writtenTo_eq, hto, hframe]
    · simp [writtenTo_eq, hto]

/-- A client with nothing under way that has sent some data has a response. -/
theorem responsesTo_done (answer : World → Bytes → Option Bytes)
    (hanswer : ∀ world frame, answer world frame ≠ some []) (s : Exchange World)
    (h : Partitioned answer s) (c : ZmqIdentity) (hdone : Done c s) (hsome : requests c s ≠ []) :
    responsesTo c s ≠ [] := by
  obtain ⟨a, ha⟩ := List.exists_mem_of_ne_nil _ hsome
  obtain ⟨hreceived, hid⟩ := List.mem_filter.mp ha
  have hin := (partition_perm answer s h).mem_iff.mpr (List.mem_map_of_mem hreceived)
  obtain ⟨b, hb, hdata⟩ := List.mem_map.mp hin
  simp only [Arrival.data, Prod.mk.injEq] at hdata
  obtain ⟨-, hsame, -⟩ := hdata
  have hbid : b.message.id = c := hsame.trans (by simpa using hid)
  have hanswered : b ∈ s.answered.map (·.source) := by
    simp only [settled, List.mem_append] at hb
    by_contra hnot
    apply hdone b _ hbid
    simp only [List.mem_append]
    tauto
  obtain ⟨reply, hreply, rfl⟩ := List.mem_map.mp hanswered
  obtain ⟨text, htext, hmessage⟩ := h.computed reply (List.mem_append_right _ hreply)
  have hframe : reply.message.frame = text := by
    rw [hmessage]
    simp [HttpWorker.handleRequest, Message.frame]
  have hne : text ≠ [] := fun hnil => hanswer _ _ (hnil ▸ htext)
  have hto : reply.message.id = c := by
    rw [hmessage]
    exact hbid
  apply List.ne_nil_of_mem (a := reply)
  simp [responsesTo, responses, hreply, hframe, hne, hto]

open HttpWorker in
/-- Before its connection is closed a client is sent at most one response, to one of its requests,
and exactly one once they are all done; a single request gets its own. -/
theorem delivered_once {Site : Type} (bld : Build) (websites : Websites Site)
    (s : Exchange (Surroundings Site)) (hs : (machine (answer bld websites)).Reachable s)
    (c : ZmqIdentity) :
    (delivered c s = [] ∧ writtenTo c s = [] ∨ ∃ text rest, delivered c s = [text] ∧
        writtenTo c s = text :: [] :: rest ∧
        ∃ a ∈ requests c s, ∃ world, answer bld websites world a.message.frame = some text) ∧
      (Done c s → requests c s ≠ [] → delivered c s ≠ []) ∧
      (Done c s → (requests c s).length = 1 → InOrder (answer bld websites) c s) := by
  have hpartitioned := reachable_partitioned _ s hs
  have hown : ∀ reply ∈ responsesTo c s, ∃ a ∈ requests c s, ∃ world,
      answer bld websites world a.message.frame = some reply.message.frame := by
    intro reply hreply
    obtain ⟨hresponse, hid⟩ := List.mem_filter.mp hreply
    obtain ⟨a, ha, -, hsame, hanswer⟩ := response_own _ s hpartitioned reply hresponse
    refine ⟨a, List.mem_filter.mpr ⟨ha, ?_⟩, reply.world, hanswer⟩
    rw [← hsame]
    exact hid
  have hdone : Done c s → requests c s ≠ [] → responsesTo c s ≠ [] :=
    responsesTo_done _ (answer_ne_nil bld websites) s hpartitioned c
  rcases delivered_eq c s with ⟨hnone, hdelivered, hwritten⟩ |
    ⟨reply, rest, hreply, hdelivered, hwritten⟩
  · refine ⟨Or.inl ⟨hdelivered, hwritten⟩, ?_, ?_⟩
    · intro hall hsome
      exact absurd hnone (hdone hall hsome)
    · intro hall hone
      have hsome : requests c s ≠ [] := List.ne_nil_of_length_pos (by omega)
      exact absurd hnone (hdone hall hsome)
  · obtain ⟨a, ha, world, hanswer⟩ := hown reply hreply
    refine ⟨Or.inr ⟨_, rest, hdelivered, hwritten, a, ha, world, hanswer⟩, ?_, ?_⟩
    · intro _ _
      rw [hdelivered]
      exact List.cons_ne_nil _ _
    · intro _ hone
      obtain ⟨b, hb⟩ := List.length_eq_one_iff.mp hone
      obtain rfl : a = b := by simpa [hb] using ha
      rw [InOrder, hdelivered, hb]
      exact List.Forall₂.cons ⟨world, hanswer⟩ List.Forall₂.nil

section Sample

/-- A service whose resources answer with the Request-URI. -/
def echo : HttpResourceFactory where
  createHandle _ := .ok (some ⟨fun request gresponse =>
    ({ gresponse with statusCode := .httpOk, messageBody := request.requestUri }, none)⟩)

def sampleWebsites : Websites HttpResourceFactory :=
  StdMap.empty.emplace (HttpService.Host.atDefaultPort (lit "a")) echo

def sampleWorld : HttpWorker.Surroundings HttpResourceFactory where
  garbageMethod := .mGet
  garbageStatus := .httpUnknown
  execute := HttpService.execute (lit "Thu, 01 Jan 1970 00:00:00 GMT") .httpUnknown

def sampleRequestTo (uri : Bytes) : Bytes := lit "GET " ++ uri ++ lit " HTTP/1.1\nHost: a\n\n"

/-- One request on its way through the third of four workers. -/
def single : List (ExchangeAction (HttpWorker.Surroundings HttpResourceFactory)) :=
  [.deliver ⟨sampleClient, []⟩, .deliver ⟨sampleClient, [sampleRequestTo (lit "/1")]⟩,
    .forwardAsReq 2, .forwardAsReq 2, .receiveRequest 2, .sendReply 2 sampleWorld,
    .forwardAsStream 2]

/-- Two pipelined requests go to the first two of four workers, and the second is ready first. -/
def pipelined : List (ExchangeAction (HttpWorker.Surroundings HttpResourceFactory)) :=
  [.deliver ⟨sampleClient, [sampleRequestTo (lit "/1")]⟩,
    .deliver ⟨sampleClient, [sampleRequestTo (lit "/2")]⟩, .forwardAsReq 0, .forwardAsReq 1,
    .receiveRequest 0, .receiveRequest 1, .sendReply 1 sampleWorld, .sendReply 0 sampleWorld,
    .forwardAsStream 1, .forwardAsStream 0]

/-- A run on the sample in which the client is done with a number of requests. -/
theorem run_done (actions : List (ExchangeAction (HttpWorker.Surroundings HttpResourceFactory)))
    (n : Nat)
    (h : ((machine (HttpWorker.answer plainBuild sampleWebsites)).run (start 4) actions).map
      (fun s => (decide (Done sampleClient s), (requests sampleClient s).length)) =
        some (true, n)) :
    ∃ s, (machine (HttpWorker.answer plainBuild sampleWebsites)).run (start 4) actions = some s ∧
      (machine (HttpWorker.answer plainBuild sampleWebsites)).Reachable s ∧ Done sampleClient s ∧
      (requests sampleClient s).length = n := by
  obtain ⟨s, hs, hout⟩ := Option.map_eq_some_iff.mp h
  simp only [Prod.mk.injEq, decide_eq_true_eq] at hout
  exact ⟨s, hs, (machine (HttpWorker.answer plainBuild sampleWebsites)).reachable_run (start 4) s
    actions (.initial _ ⟨4, rfl⟩) hs, hout.1, hout.2⟩

/-- A single request gets its response, and two requests one between them. -/
theorem delivered_once_single :
    (∃ s, (machine (HttpWorker.answer plainBuild sampleWebsites)).run (start 4) single = some s ∧
      delivered sampleClient s ≠ [] ∧
      InOrder (HttpWorker.answer plainBuild sampleWebsites) sampleClient s) ∧
    ∃ s, (machine (HttpWorker.answer plainBuild sampleWebsites)).run (start 4) pipelined = some s ∧
      (requests sampleClient s).length = 2 ∧ (delivered sampleClient s).length = 1 := by
  obtain ⟨s, hs, hreachable, hdone, hone⟩ := run_done single 1 (by decide)
  obtain ⟨t, ht, hreachable', hdone', htwo⟩ := run_done pipelined 2 (by decide)
  have hsome : requests sampleClient s ≠ [] := List.ne_nil_of_length_pos (by omega)
  have hsome' : requests sampleClient t ≠ [] := List.ne_nil_of_length_pos (by omega)
  obtain ⟨-, hanswered, horder⟩ :=
    delivered_once plainBuild sampleWebsites s hreachable sampleClient
  obtain ⟨hfirst, hanswered', -⟩ :=
    delivered_once plainBuild sampleWebsites t hreachable' sampleClient
  refine ⟨⟨s, hs, hanswered hdone hsome, horder hdone hone⟩, t, ht, htwo, ?_⟩
  rcases hfirst with ⟨hnone, -⟩ | ⟨text, rest, hdelivered, -⟩
  · exact absurd hnone (hanswered' hdone' hsome')
  · rw [hdelivered]
    rfl

/-- The client gets the response to its second request, and none to its first. -/
theorem pipelined_dropped :
    ∃ s, (machine (HttpWorker.answer plainBuild sampleWebsites)).run (start 4) pipelined = some s ∧
      Done sampleClient s ∧ (requests sampleClient s).map (·.message.frame) =
        [sampleRequestTo (lit "/1"), sampleRequestTo (lit "/2")] ∧
      (delivered sampleClient s).map some = [HttpWorker.answer plainBuild sampleWebsites
        sampleWorld (sampleRequestTo (lit "/2"))] ∧
      ¬InOrder (HttpWorker.answer plainBuild sampleWebsites) sampleClient s := by
  have hrun : ((machine (HttpWorker.answer plainBuild sampleWebsites)).run (start 4)
      pipelined).map (fun s => (decide (Done sampleClient s),
        (requests sampleClient s).map (·.message.frame), (delivered sampleClient s).map some)) =
      some (true, [sampleRequestTo (lit "/1"), sampleRequestTo (lit "/2")],
        [HttpWorker.answer plainBuild sampleWebsites sampleWorld
          (sampleRequestTo (lit "/2"))]) := by decide
  obtain ⟨s, hs, hout⟩ := Option.map_eq_some_iff.mp hrun
  simp only [Prod.mk.injEq, decide_eq_true_eq] at hout
  obtain ⟨hdone, hrequests, hdelivered⟩ := hout
  refine ⟨s, hs, hdone, hrequests, hdelivered, ?_⟩
  intro horder
  have hlen := horder.length_eq
  have hone := congrArg List.length hdelivered
  have htwo := congrArg List.length hrequests
  simp only [List.length_map, List.length_cons, List.length_nil] at hone htwo
  omega

end Sample

end Exchange
end HttpCpp
