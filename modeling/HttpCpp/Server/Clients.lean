import HttpCpp.Server.Hosting

namespace HttpCpp

/-- What a client reads of the frames of a stream socket: those that come after its identity, up to
the empty one that closes its connection. -/
def readBy (c : Bytes) : List Bytes → List Bytes
  | identity :: frame :: written =>
    if identity = c then if frame = [] then [] else frame :: readBy c written
    else readBy c written
  | _ => []

variable {World : Type}

theorem readBy_wire (c : Bytes) (a : Answer World) (htext : a.text ≠ []) (written : List Bytes) :
    readBy c (a.wire ++ written) = if a.id.identity = c then [a.text] else readBy c written := by
  by_cases hid : a.id.identity = c
  · simp [readBy, Answer.wire, hid, htext]
  · simp [readBy, Answer.wire, hid]

/-- The frames that close a connection are not read. -/
theorem readBy_close (c identity : Bytes) (written : List Bytes) (h : written <+: [identity, []]) :
    readBy c written = [] := by
  rcases written with _ | ⟨first, _ | ⟨frame, rest⟩⟩
  · rfl
  · rfl
  · simp only [List.cons_prefix_cons, List.prefix_nil] at h
    obtain ⟨-, rfl, rfl⟩ := h
    simp [readBy]

/-- Within the frames of an answer its text has been read or not. -/
theorem readBy_within (c : Bytes) (a : Answer World) (htext : a.text ≠ []) (written : List Bytes)
    (h : written <+: a.wire) :
    readBy c written = [] ∨ a.id.identity = c ∧ readBy c written = [a.text] := by
  rcases written with _ | ⟨first, _ | ⟨frame, rest⟩⟩
  · exact Or.inl rfl
  · exact Or.inl rfl
  · simp only [Answer.wire, List.cons_prefix_cons] at h
    obtain ⟨rfl, rfl, hrest⟩ := h
    have hclose := readBy_close c _ rest hrest
    by_cases hid : a.id.identity = c
    · exact Or.inr ⟨hid, by simp [readBy, hid, htext, hclose]⟩
    · exact Or.inl (by simp [readBy, hid, hclose])

/-- A client reads nothing but the text of an answer that is for it. -/
theorem readBy_written (c : Bytes) (answers : List (Answer World))
    (htext : ∀ a ∈ answers, a.text ≠ []) (written : List Bytes)
    (h : written <+: answers.flatMap Answer.wire) :
    readBy c written = [] ∨
      ∃ a ∈ answers, a.id.identity = c ∧ readBy c written = [a.text] := by
  induction answers generalizing written with
  | nil =>
    obtain rfl := List.prefix_nil.mp h
    exact Or.inl rfl
  | cons a answers ih =>
    rw [List.flatMap_cons] at h
    have hfirst := htext a (by simp)
    rcases List.prefix_or_prefix_of_prefix h (List.prefix_append _ _) with hwithin | ⟨more, rfl⟩
    · rcases readBy_within c a hfirst written hwithin with hnone | ⟨hid, hreads⟩
      · exact Or.inl hnone
      · exact Or.inr ⟨a, by simp, hid, hreads⟩
    · rw [readBy_wire c a hfirst]
      by_cases hid : a.id.identity = c
      · rw [if_pos hid]
        exact Or.inr ⟨a, by simp, hid, rfl⟩
      · rw [if_neg hid]
        have hmore := (List.prefix_append_right_inj _).mp h
        rcases ih (fun b hb => htext b (by simp [hb])) more hmore with hnone | ⟨b, hb, hreads⟩
        · exact Or.inl hnone
        · exact Or.inr ⟨b, by simp [hb], hreads⟩

/-- A client that is answered reads something. -/
theorem readBy_answered (c : Bytes) (answers : List (Answer World))
    (htext : ∀ a ∈ answers, a.text ≠ []) (h : ∃ a ∈ answers, a.id.identity = c) :
    readBy c (answers.flatMap Answer.wire) ≠ [] := by
  induction answers with
  | nil => simp at h
  | cons a answers ih =>
    rw [List.flatMap_cons, readBy_wire c a (htext a (by simp))]
    by_cases hid : a.id.identity = c
    · simp [hid]
    · rw [if_neg hid]
      apply ih (fun b hb => htext b (by simp [hb]))
      obtain ⟨b, hb, hsame⟩ := h
      rcases List.mem_cons.mp hb with rfl | hb
      · exact absurd hsame hid
      · exact ⟨b, hb, hsame⟩

namespace ZmqIdentity

theorem ext_identity (c c' : ZmqIdentity) (h : c.identity = c'.identity) : c = c' := by
  cases c
  cases c'
  simpa using h

end ZmqIdentity

namespace Process

open HttpWorker

variable {answer : World → Bytes → Option Bytes}

/-- What a client has read is the answer to some data of its own. -/
def ReadsOwn (answer : World → Bytes → Option Bytes) (p : Process) (c : ZmqIdentity) : Prop :=
  ∃ frame world text, (c, frame) ∈ p.data ∧ answer world frame = some text ∧
    readBy c.identity p.written = [text]

theorem readsOwn_answers (p : Process) (c : ZmqIdentity) (answers : List (Answer World))
    (hdata : (answers.map fun a => (a.id, a.frame)).Subperm p.data)
    (hcomputed : ∀ a ∈ answers, answer a.world a.frame = some a.text)
    (h : ∃ a ∈ answers, a.id.identity = c.identity ∧ readBy c.identity p.written = [a.text]) :
    ReadsOwn answer p c := by
  obtain ⟨a, ha, hid, hreads⟩ := h
  obtain rfl := ZmqIdentity.ext_identity _ _ hid
  exact ⟨a.frame, a.world, a.text, hdata.subset (List.mem_map.mpr ⟨a, ha, rfl⟩),
    hcomputed a ha, hreads⟩

/-- At rest every client that has sent data has read an answer. -/
theorem Rests.readsOwn [Nonempty World] {p : Process} (h : Rests answer p)
    (hanswer : ∀ world frame, answer world frame ≠ some []) (c : ZmqIdentity)
    (hsome : ∃ frame, (c, frame) ∈ p.data) : ReadsOwn answer p c := by
  obtain ⟨answers, hwritten, hperm, hcomputed⟩ := h.answered hanswer
  have htext : ∀ a ∈ answers, a.text ≠ [] := by
    intro a ha hnil
    exact hanswer a.world a.frame (hnil ▸ hcomputed a ha)
  obtain ⟨frame, hframe⟩ := hsome
  obtain ⟨a, ha, hsame⟩ := List.mem_map.mp (hperm.mem_iff.mpr hframe)
  have hid : a.id.identity = c.identity := by rw [(Prod.mk.inj hsame).1]
  have hne := readBy_answered c.identity answers htext ⟨a, ha, hid⟩
  rw [← hwritten] at hne
  apply readsOwn_answers p c answers hperm.subperm hcomputed
  exact (readBy_written c.identity answers htext p.written (by rw [hwritten])).resolve_left hne

variable {Site : Type}

/-- Whatever the interleaving, a client that has read anything has read one answer, whole, to some
data of its own; and when the threads have come to rest every client that sent data has. -/
theorem reachable_reads (bld : Build) (websites : Websites Site) (p : Process)
    (h : (machine (HttpWorker.answer bld websites)).Reachable p) (c : ZmqIdentity) :
    (readBy c.identity p.written = [] ∨ ReadsOwn (HttpWorker.answer bld websites) p c) ∧
      (Rests (HttpWorker.answer bld websites) p → (∃ frame, (c, frame) ∈ p.data) →
        ReadsOwn (HttpWorker.answer bld websites) p c) := by
  refine ⟨?_, fun hrests => hrests.readsOwn (answer_ne_nil bld websites) c⟩
  obtain ⟨e, -, hshows, hpartitioned⟩ := reachable_shows _ p h
  have hcomputed := answers_computed e hpartitioned
  have hprefix : p.written <+: (answers e).flatMap Answer.wire := by
    rw [← answers_wire e hpartitioned]
    exact hshows.gives.written_prefix
  have htext : ∀ a ∈ answers e, a.text ≠ [] := by
    intro a ha hnil
    exact answer_ne_nil bld websites a.world a.frame (hnil ▸ hcomputed a ha)
  have hdata := answers_subperm hshows hpartitioned
  exact (readBy_written c.identity (answers e) htext p.written hprefix).imp_right
    (readsOwn_answers p c (answers e) hdata hcomputed)

theorem reachable_reads_sample :
    ReadsOwn (HttpWorker.answer plainBuild Exchange.sampleWebsites) (sampleProcess 38)
      HttpServer.sampleClient := by
  obtain ⟨hidle, hrunning, hdata⟩ : (sampleProcess 38).Idle ∧
      (sampleProcess 38).terminated = false ∧
      (HttpServer.sampleClient, Exchange.sampleRequestTo (lit "/1")) ∈ (sampleProcess 38).data := by
    decide
  have hrests : Rests (HttpWorker.answer plainBuild Exchange.sampleWebsites) (sampleProcess 38) :=
    ⟨afterActions_reachable _ _ _ 38, idle_stuck hidle, hrunning, hidle.unfailed⟩
  exact (reachable_reads plainBuild Exchange.sampleWebsites _ hrests.reachable
    HttpServer.sampleClient).2 hrests ⟨_, hdata⟩

open HttpService

variable {Fn : Type}

/-- As long as no client sends data that ends the program, a client whose data is a request for a
directory's website reads what stands there, whatever the other clients send and however the threads
run. -/
theorem stuck_reads (bld : Build) (websites : Websites (Service Fn))
    (hdirectories : Directories websites) (env : ResourceContext) (htypes : env.PlainTypes)
    (call : Call Fn) (p : Process)
    (h : (machine (siteAnswer bld websites env call)).Reachable p)
    (hstuck : (machine (siteAnswer bld websites env call)).Stuck ProcessAction.Internal p)
    (hfailed : p.place ≠ .failed) (hends : ∀ d ∈ p.data, ParseEnds bld d.2)
    (c : ZmqIdentity) (frame : Bytes) (request : HttpRequest) (host : Host)
    (hparsed : ParsedFor bld frame request host) (virtualPath : Bytes)
    (hservice : (host, .directory virtualPath) ∈ websites.entries)
    (hasked : (c, frame) ∈ p.data) (honly : ∀ other, (c, other) ∈ p.data → other = frame) :
    ∃ text d, readBy c.identity p.written = [text] ∧ HttpResponse.decode text = some d ∧
      ReadsPath env (virtualPath ++ request.requestUri) request.method d := by
  have hrunning : p.terminated = false := by
    by_contra hended
    obtain ⟨d, hd, now, hnone⟩ := reachable_ended _ p h (by simpa using hended)
    exact (siteAnswer_none_iff bld websites hdirectories env call now d.2).mp hnone (hends d hd)
  have hrests : Rests (siteAnswer bld websites env call) p := ⟨h, hstuck, hrunning, hfailed⟩
  obtain ⟨other, now, text, hdata, hanswer, hreads⟩ :=
    hrests.readsOwn (fun now frame => answer_ne_nil bld websites _ frame) c ⟨_, hasked⟩
  rw [honly other hdata] at hanswer
  obtain ⟨text', d, htext, hdecode, hpath⟩ :=
    siteAnswer_directory bld websites env htypes call now hparsed virtualPath hservice
  obtain rfl := Option.some.inj (hanswer.symm.trans htext)
  exact ⟨text, d, hreads, hdecode, hpath⟩

/-- A client has asked for the sample's file, and another one has sent what is no request. -/
def twoClients : Process :=
  afterBoth (siteAnswer plainBuild directorySite sampleContext noCall)
    ⟨HttpServer.sampleClient, [indexFrame]⟩ ⟨Exchange.secondClient, [lit "no request"]⟩ sampleMoment

theorem stuck_reads_index :
    (Exchange.secondClient, lit "no request") ∈ twoClients.data ∧ ∃ text d,
      readBy HttpServer.sampleClient.identity twoClients.written = [text] ∧
      HttpResponse.decode text = some d ∧
      ReadsPath sampleContext (lit "/srv/www" ++ indexRequest.requestUri) .mGet d := by
  obtain ⟨hidle, hdata⟩ : twoClients.Idle ∧ twoClients.data =
      [(HttpServer.sampleClient, indexFrame), (Exchange.secondClient, lit "no request")] := by
    decide
  have hother : HttpServer.sampleClient ≠ Exchange.secondClient := by decide
  have hends : ParseEnds plainBuild indexFrame ∧ ParseEnds plainBuild (lit "no request") :=
    ⟨(parseRequest_ends_iff plainBuild .mGet _).mp (by simp [indexFrame_parsed.parsed]),
      Or.inr (by decide), fun h => absurd h.1 (by decide)⟩
  refine ⟨by simp [hdata], ?_⟩
  exact stuck_reads plainBuild directorySite directorySite_directories sampleContext
    sampleContext_types noCall twoClients (afterBoth_reachable _ _ _ _) (idle_stuck hidle)
    hidle.unfailed (by simp [hdata, hends]) HttpServer.sampleClient indexFrame indexRequest _
    indexFrame_parsed (lit "/srv/www") directorySite_mem (by simp [hdata])
    (by simp [hdata, hother])

end Process

end HttpCpp
