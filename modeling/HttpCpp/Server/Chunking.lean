import HttpCpp.Server.FrontEnd
import HttpCpp.Protocol.Constants

namespace HttpCpp
namespace HttpServer

open HttpWorker

/-- The frames of the messages that carry an identity. -/
def framesOf (c : ZmqIdentity) (messages : List Message) : List Bytes :=
  (messages.filter (·.id = c)).map Message.frame

/-- The pieces in which a client's data arrived. -/
def pieces (c : ZmqIdentity) (s : ServerState) : List Bytes :=
  (framesOf c s.received).filter (· ≠ [])

def handedTo (c : ZmqIdentity) (s : ServerState) : List Bytes := framesOf c (handed s)

def sentTo (c : ZmqIdentity) (s : ServerState) : List Bytes := framesOf c (sent s)

/-- Nothing of the client is under way. -/
def Settled (c : ZmqIdentity) (s : ServerState) : Prop :=
  (∀ m ∈ s.httpIn, m.id ≠ c) ∧ (∀ w ∈ s.workers, ∀ m ∈ w.pending, m.id ≠ c) ∧
    ∀ m ∈ s.replies, m.id ≠ c

theorem framesOf_append (c : ZmqIdentity) (a b : List Message) :
    framesOf c (a ++ b) = framesOf c a ++ framesOf c b := by
  simp [framesOf]

theorem framesOf_nil (c : ZmqIdentity) (a : List Message) (h : ∀ m ∈ a, m.id ≠ c) :
    framesOf c a = [] := by
  simpa [framesOf, List.filter_eq_nil_iff] using h

/-- A client's requests go on as they came in, the empty frames left out. -/
theorem framesOf_forwardAsReq (c : ZmqIdentity) (a : List Message) :
    framesOf c (a.flatMap forwardAsReq) = (framesOf c a).filter (· ≠ []) := by
  induction a with
  | nil => rfl
  | cons m a ih =>
    rw [List.flatMap_cons, framesOf_append, ih]
    by_cases hid : m.id = c
    · by_cases hframe : m.frame = []
      · simp [framesOf, forwardAsReq, hid, hframe]
      · have hsame : Message.frame ⟨c, [m.frame]⟩ = m.frame := by simp [Message.frame]
        simp [framesOf, forwardAsReq, hid, hframe, hsame]
    · by_cases hframe : m.frame = [] <;> simp [framesOf, forwardAsReq, hid, hframe]

theorem framesOf_forwardAsStream (c : ZmqIdentity) (a : List Message) :
    framesOf c (a.flatMap forwardAsStream) =
      ((a.filter (·.id = c)).flatMap forwardAsStream).map Message.frame := by
  induction a with
  | nil => rfl
  | cons m a ih =>
    rw [List.flatMap_cons, framesOf_append, ih]
    by_cases hid : m.id = c
    · have hall : (forwardAsStream m).filter (·.id = c) = forwardAsStream m := by
        by_cases hframe : m.frame = [] <;> simp [forwardAsStream, hid, hframe]
      rw [framesOf, hall, List.filter_cons_of_pos (by simpa using hid), List.flatMap_cons,
        List.map_append]
    · have hnone : framesOf c (forwardAsStream m) = [] := by
        by_cases hframe : m.frame = [] <;> simp [framesOf, forwardAsStream, hid, hframe]
      rw [hnone, List.filter_cons_of_neg (by simpa using hid), List.nil_append]

theorem handedTo_eq (answer : Bytes → Bytes) (s : ServerState)
    (hs : (machine answer).Reachable s) (c : ZmqIdentity) (hc : Settled c s) :
    handedTo c s = pieces c s := by
  obtain ⟨hreceived, -⟩ := reachable_accounted answer s hs
  rw [handedTo, handed, framesOf_forwardAsReq, pieces, ← hreceived, framesOf_append,
    framesOf_nil c s.httpIn hc.1, List.append_nil]

/-- A client that was handed one request is sent the answer to it. -/
theorem sentTo_single (answer : Bytes → Bytes) (s : ServerState)
    (hs : (machine answer).Reachable s) (c : ZmqIdentity) (hc : Settled c s) (r : Bytes)
    (hone : handedTo c s = [r]) :
    sentTo c s = (forwardAsStream ⟨c, [answer r]⟩).map Message.frame := by
  obtain ⟨-, hhandled⟩ := reachable_accounted answer s hs
  obtain ⟨-, hworkers, hreplies⟩ := hc
  have hmine : ((handed s).map (handleRequest answer)).filter (·.id = c) =
      [⟨c, [answer r]⟩] := by
    obtain ⟨m, hm, hframe⟩ := List.map_eq_singleton_iff.mp hone
    have hid : m.id = c := by
      have hin : m ∈ (handed s).filter (·.id = c) := hm ▸ List.mem_singleton_self m
      simpa using (List.mem_filter.mp hin).2
    rw [List.filter_map]
    show ((handed s).filter (·.id = c)).map _ = _
    rw [hm, List.map_singleton, handleRequest, hid, hframe]
  have hreplied : s.replies.filter (·.id = c) = [] := by simpa using hreplies
  have hpending : (s.workers.flatMap fun w => w.pending.map (handleRequest answer)).filter
      (·.id = c) = [] := by
    simp only [List.filter_eq_nil_iff, List.mem_flatMap, List.mem_map]
    intro m' h
    obtain ⟨w, hw, m, hm, rfl⟩ := h
    have hid : (handleRequest answer m).id ≠ c := hworkers w hw m hm
    simpa using hid
  have hperm := hhandled.filter (·.id = c)
  rw [List.filter_append, List.filter_append, hreplied, hpending, hmine, List.append_nil,
    List.append_nil, List.singleton_perm] at hperm
  rw [sentTo, sent, framesOf_forwardAsStream, ← hperm, List.flatMap_singleton]

/-- A request gets to the workers and is answered as if it had come in one message exactly when it
came in one message. -/
theorem chunking_independent_iff (answer : Bytes → Bytes) (s s₁ : ServerState)
    (hs : (machine answer).Reachable s) (hs₁ : (machine answer).Reachable s₁) (c : ZmqIdentity)
    (hc : Settled c s) (hc₁ : Settled c s₁) (r : Bytes) (hr : (pieces c s).flatten = r)
    (hone : pieces c s₁ = [r]) :
    (handedTo c s = handedTo c s₁ ∧ sentTo c s = sentTo c s₁) ↔ (pieces c s).length = 1 := by
  have hhanded := handedTo_eq answer s hs c hc
  have hhanded₁ := handedTo_eq answer s₁ hs₁ c hc₁
  constructor
  · intro h
    obtain ⟨hsame, -⟩ := h
    rw [← hhanded, hsame, hhanded₁, hone]
    rfl
  · intro hlen
    obtain ⟨p, hp⟩ := List.length_eq_one_iff.mp hlen
    have hpr : p = r := by rw [← hr, hp]; simp
    rw [hpr] at hp
    rw [sentTo_single answer s hs c hc r (hhanded.trans hp),
      sentTo_single answer s₁ hs₁ c hc₁ r (hhanded₁.trans hone), hhanded, hhanded₁, hp, hone]
    exact ⟨rfl, rfl⟩

def sampleRequest : Bytes := lit "GET / HTTP/1.1" ++ CRLF ++ lit "Host: a" ++ CRLF ++ CRLF

def sampleAnswer (_frame : Bytes) : Bytes := lit "HTTP/1.1 200 OK" ++ CRLF ++ CRLF

/-- The client's data delivered in some pieces, each handled by the first worker. -/
def sampleRun (data : List Bytes) : List ServerAction :=
  data.map (fun piece => .deliver ⟨sampleClient, [piece]⟩) ++
    data.flatMap fun _ => [.forwardAsReq 0, .receiveRequest 0, .sendReply 0, .forwardAsStream]

/-- The server after such a run. -/
def sampleEnd (workers : Nat) (data : List Bytes) : ServerState where
  httpIn := []
  workers := List.replicate workers ⟨[], none⟩
  replies := []
  received := data.map fun piece => ⟨sampleClient, [piece]⟩
  requested := data.map fun piece => ⟨sampleClient, [piece]⟩
  answered := data.map fun piece => ⟨sampleClient, [sampleAnswer piece]⟩

theorem sampleEnd_reachable (workers : Nat) (data : List Bytes)
    (h : (machine sampleAnswer).run (start workers) (sampleRun data) =
      some (sampleEnd workers data)) :
    (machine sampleAnswer).Reachable (sampleEnd workers data) :=
  (machine sampleAnswer).reachable_run _ _ _ (.initial _ ⟨workers, rfl⟩) h

instance (c : ZmqIdentity) (s : ServerState) : Decidable (Settled c s) :=
  inferInstanceAs (Decidable (_ ∧ _ ∧ _))

theorem chunking_independent_whole :
    handedTo sampleClient (sampleEnd 4 [sampleRequest]) =
        handedTo sampleClient (sampleEnd 1 [sampleRequest]) ∧
      sentTo sampleClient (sampleEnd 4 [sampleRequest]) =
        sentTo sampleClient (sampleEnd 1 [sampleRequest]) :=
  (chunking_independent_iff sampleAnswer (sampleEnd 4 [sampleRequest])
    (sampleEnd 1 [sampleRequest]) (sampleEnd_reachable 4 _ (by decide))
    (sampleEnd_reachable 1 _ (by decide)) sampleClient (by decide)
    (by decide) sampleRequest (by decide) (by decide)).mpr
    (by decide)

/-- A request in two pieces is handed to the workers as two requests. -/
theorem two_pieces_two_requests :
    ∃ s s₁, (machine sampleAnswer).Reachable s ∧ (machine sampleAnswer).Reachable s₁ ∧
      Settled sampleClient s ∧ Settled sampleClient s₁ ∧
      (pieces sampleClient s).flatten = sampleRequest ∧
      pieces sampleClient s₁ = [sampleRequest] ∧
      handedTo sampleClient s ≠ handedTo sampleClient s₁ :=
  ⟨sampleEnd 4 [sampleRequest.take 9, sampleRequest.drop 9], sampleEnd 4 [sampleRequest],
    sampleEnd_reachable 4 _ (by decide), sampleEnd_reachable 4 _ (by decide),
    by decide, by decide, by decide, by decide,
    by decide⟩

end HttpServer
end HttpCpp
