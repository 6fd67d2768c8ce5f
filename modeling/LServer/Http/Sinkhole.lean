import LServer.Http.Receive

set_option autoImplicit false

namespace LServer

namespace HttpSession

def declaredLength (parser : HttpParser) (hdr : Bytes) : Nat :=
  (HttpRequestHeader.empty.ofRun (parser hdr)).getContentLength

section Phases
variable (parser : HttpParser) (hdr body : Bytes)

structure SinkHeader (s : HttpSession) : Prop where
  header : s.requestHeader = .empty
  vm : s.program.vm = false
  unset : s.expectedDataChunckSzSet = false
  ubuf : s.ubuf = (hdr ++ body).take s.bytesReceived
  received_lt : s.bytesReceived < hdr.length

structure SinkBody (s : HttpSession) : Prop where
  header : s.requestHeader = HttpRequestHeader.empty.ofRun (parser hdr)
  set : s.expectedDataChunckSzSet = true
  expected : s.expectedDataChunckSz = declaredLength parser hdr
  program : s.program =
    { Program.sinkhole with vm := true, bytesProcessedCnt := s.program.bytesProcessedCnt }
  ubuf : s.ubuf = []
  received_ge : hdr.length ≤ s.bytesReceived
  received_lt : s.bytesReceived < s.expectedDataChunckSz

/-- Between two reads, before the response. -/
structure SinkWaiting (s : HttpSession) : Prop where
  queue : s.outgoingQueue = []
  received_le : s.bytesReceived ≤ (hdr ++ body).length
  phase : SinkHeader hdr body s ∨ SinkBody parser hdr s

end Phases

section Steps
variable {parser : HttpParser} {past : Nat → UInt8} {hdr body : Bytes}

theorem sink_onDataFeed {s : HttpSession} {v : Bool} {k : Nat}
    (hp : s.program = { Program.sinkhole with vm := v, bytesProcessedCnt := k })
    (hset : s.expectedDataChunckSzSet = true) (hq : s.outgoingQueue = []) :
    (s.expectedDataChunckSz ≤ s.bytesReceived ∧ ∃ s' b, s.onDataFeed = .ok (s', [], .kFinished) ∧
        s'.outgoingQueue = [b] ∧ s'.bytesReceived = s.bytesReceived) ∨
      (s.bytesReceived < s.expectedDataChunckSz ∧ ∃ s', s.onDataFeed = .ok (s', [], .kContinue) ∧
        s'.bytesReceived = s.bytesReceived ∧ s'.expectedDataChunckSz = s.expectedDataChunckSz ∧
        s'.expectedDataChunckSzSet = true ∧ s'.requestHeader = s.requestHeader ∧
        s'.outgoingQueue = [] ∧ s'.ubuf = [] ∧
        s'.program = { Program.sinkhole with vm := true, bytesProcessedCnt := k + s.ubuf.length }) := by
  rw [onDataFeed_of_nil (by rw [hp]; rfl) (by rw [hp]; rfl)]
  by_cases hf : s.expectedDataChunckSz ≤ s.bytesReceived
  · have hcf : s.checkFinished = true := by simp [checkFinished, hset, hf]
    obtain ⟨c, hc⟩ := HttpResponseHeader.prepare_contents s.responseHeader 0 s.requestHeader.keepAlive
    refine .inl ⟨hf, ?_⟩
    simp only [hcf, if_true, hp, respond]
    rw [show Program.sinkhole.resultCode = 200 from rfl, show Program.sinkhole.downloadSize = 0 from rfl,
      hc]
    exact ⟨_, _, rfl, congrArg (· ++ _) hq, rfl⟩
  · have hcf : s.checkFinished = false := by simp [checkFinished, hf]
    refine .inr ⟨by omega, ?_⟩
    simp only [hcf, Bool.false_eq_true, if_false, hp]
    exact ⟨_, rfl, rfl, rfl, hset, rfl, hq, rfl, rfl⟩

theorem receiveEventCb_of_sink_feed (hC : declaredLength parser hdr < 2 ^ 64)
    {s s₃ : HttpSession} {c : Bytes} {v : Bool} {k : Nat}
    (hon : (s.deliver c).onData parser past = s₃.onDataFeed)
    (hp : s₃.program = { Program.sinkhole with vm := v, bytesProcessedCnt := k })
    (hset : s₃.expectedDataChunckSzSet = true)
    (hexp : s₃.expectedDataChunckSz = declaredLength parser hdr)
    (hhdr : s₃.requestHeader = HttpRequestHeader.empty.ofRun (parser hdr))
    (hq : s₃.outgoingQueue = []) (hr : s₃.bytesReceived = s.bytesReceived + c.length)
    (hge : hdr.length ≤ s₃.bytesReceived) :
    ∃ s' calls next, s.receiveEventCb parser past c = .ok (s', calls, next) ∧
      s'.bytesReceived = s.bytesReceived + c.length ∧
      ((SinkBody parser hdr s' ∧ s'.outgoingQueue = [] ∧ ∃ n, next = .read n) ∨
        (declaredLength parser hdr ≤ s'.bytesReceived ∧ (∃ b, s'.outgoingQueue = [b]) ∧
          next = .idle)) := by
  rcases sink_onDataFeed hp hset hq with
    ⟨hf, s', b, hd, hb, hr'⟩ | ⟨hf, s', hd, e1, e2, e3, e4, e5, e6, e7⟩
  · refine ⟨s', [], .idle, ?_, hr'.trans hr, .inr ⟨by rw [hr', ← hexp]; exact hf, ⟨b, hb⟩, rfl⟩⟩
    simp only [receiveEventCb, hon, hd, Outcome.ok_bind]
    rfl
  · have r2 : s'.expectedDataChunckSz = declaredLength parser hdr := e2.trans hexp
    have r3 : s'.bytesReceived < s'.expectedDataChunckSz := by rw [e1, e2]; exact hf
    refine ⟨s', [], .read (min (s'.expectedDataChunckSz - s'.bytesReceived) maxTransferSz), ?_,
      e1.trans hr, .inl ⟨⟨e4.trans hhdr, e3, r2, by rw [e7], e6, e1 ▸ hge, r3⟩, e5, _, rfl⟩⟩
    simp only [receiveEventCb, hon, hd, Outcome.ok_bind, asyncReceive_of_lt e3 r3 (r2 ▸ hC),
      Outcome.map_ok]

theorem sinkBody_receiveEventCb (hC : declaredLength parser hdr < 2 ^ 64) {s : HttpSession}
    (hs : SinkBody parser hdr s) (hq : s.outgoingQueue = []) (c : Bytes) :
    ∃ s' calls next, s.receiveEventCb parser past c = .ok (s', calls, next) ∧
      s'.bytesReceived = s.bytesReceived + c.length ∧
      ((SinkBody parser hdr s' ∧ s'.outgoingQueue = [] ∧ ∃ n, next = .read n) ∨
        (declaredLength parser hdr ≤ s'.bytesReceived ∧ (∃ b, s'.outgoingQueue = [b]) ∧
          next = .idle)) := by
  have hon : (s.deliver c).onData parser past = (s.deliver c).onDataFeed := by
    simp only [onData, onDataHeader, deliver, hs.header, HttpRequestHeader.ofRun, if_true,
      Outcome.ok_bind, onDataProgram, Program.isSet]
    rw [hs.program]
    rfl
  have := hs.received_ge
  exact receiveEventCb_of_sink_feed hC hon hs.program hs.set hs.expected hs.header hq rfl
    (by simp only [deliver]; omega)

theorem onData_sink_header_block (hb : IsHeaderBlock hdr)
    (hv : urlPrefix vscriptUrl (HttpRequestHeader.empty.ofRun (parser hdr)).url = some false)
    (hk : urlPrefix sinkholeUrl (HttpRequestHeader.empty.ofRun (parser hdr)).url = some true)
    {s : HttpSession} {rest : Bytes} (h1 : s.requestHeader = .empty) (h2 : s.program.vm = false)
    (h3 : s.ubuf = hdr ++ rest) :
    ∃ s₃ : HttpSession, s.onData parser past = s₃.onDataFeed ∧
      s₃.program = { Program.sinkhole with vm := false, bytesProcessedCnt := 0 } ∧
      s₃.expectedDataChunckSzSet = true ∧ s₃.expectedDataChunckSz = declaredLength parser hdr ∧
      s₃.requestHeader = HttpRequestHeader.empty.ofRun (parser hdr) ∧
      s₃.outgoingQueue = s.outgoingQueue ∧ s₃.bytesReceived = s.bytesReceived := by
  have ht : s.requestHeader.tryParse parser s.ubuf =
      (some hdr.length, HttpRequestHeader.empty.ofRun (parser hdr)) := by
    rw [h3, h1]
    exact HttpRequestHeader.tryParse_append hb parser _ _
  have h4 := hb.four_le
  have hready : s.requestHeader.ready = false := by rw [h1]; rfl
  simp only [onData, onDataHeader, hready, Bool.false_eq_true, if_false, tryHandleHeader, ht]
  rw [consume_of_le (n := hdr.length) (by omega) (by simp [setExpectedDataLength, h3])]
  simp only [Outcome.map_ok, Outcome.ok_bind, onDataProgram, Program.isSet, setExpectedDataLength,
    h2, Bool.false_eq_true, if_false, hv, hk]
  exact ⟨_, rfl, rfl, rfl, rfl, rfl, rfl, rfl⟩

theorem SinkWaiting.received_lt {s : HttpSession} (hs : SinkWaiting parser hdr body s) :
    s.bytesReceived < max hdr.length (declaredLength parser hdr) := by
  rcases hs.phase with hH | hB
  · exact lt_max_of_lt_left hH.received_lt
  · exact lt_max_of_lt_right (hB.expected ▸ hB.received_lt)

theorem sinkHeader_receiveEventCb (hb : IsHeaderBlock hdr)
    (hv : urlPrefix vscriptUrl (HttpRequestHeader.empty.ofRun (parser hdr)).url = some false)
    (hk : urlPrefix sinkholeUrl (HttpRequestHeader.empty.ofRun (parser hdr)).url = some true)
    (hC : declaredLength parser hdr < 2 ^ 64) {s : HttpSession} (hs : SinkHeader hdr body s)
    (hq : s.outgoingQueue = []) {c : Bytes}
    (hc : (hdr ++ body).take s.bytesReceived ++ c <+: hdr ++ body) :
    ∃ s' calls next, s.receiveEventCb parser past c = .ok (s', calls, next) ∧
      s'.bytesReceived = s.bytesReceived + c.length ∧
      ((SinkWaiting parser hdr body s' ∧ ∃ n, next = .read n) ∨
        (max hdr.length (declaredLength parser hdr) ≤ s'.bytesReceived ∧
          (∃ b, s'.outgoingQueue = [b]) ∧ next = .idle)) := by
  have hr := hs.received_lt
  have hk' : ((hdr ++ body).take s.bytesReceived).length = s.bytesReceived :=
    List.length_take_of_le (by simp; omega)
  have htake := take_append_of_prefix hc
  rw [hk'] at htake
  have hle : s.bytesReceived + c.length ≤ (hdr ++ body).length := by
    simpa [hk'] using hc.length_le
  have hu : (s.deliver c).ubuf = (hdr ++ body).take (s.bytesReceived + c.length) := by
    simp only [deliver, hs.ubuf, htake]
  by_cases hH : s.bytesReceived + c.length < hdr.length
  · have ht : HttpRequestHeader.empty.tryParse parser (s.ubuf ++ c) = (none, .empty) := by
      rw [hs.ubuf, ← htake, List.take_append_of_le_length (by omega)]
      exact HttpRequestHeader.tryParse_take hb parser _ hH
    have hon : (s.deliver c).onData parser past = .ok (s.deliver c, [], .kContinue) := by
      simp only [onData, onDataHeader, tryHandleHeader, deliver, hs.header, ht]
      rfl
    refine ⟨s.deliver c, [], .read 1, ?_, rfl, .inl ⟨⟨by simp [deliver, hq],
      by simpa [deliver] using hle, .inl ⟨hs.header, hs.vm, hs.unset, hu, hH⟩⟩, 1, rfl⟩⟩
    simp only [receiveEventCb, hon, Outcome.ok_bind,
      asyncReceive_of_unset (s := s.deliver c) hs.unset, Outcome.map_ok]
  · have hsplit : (s.deliver c).ubuf =
        hdr ++ body.take (s.bytesReceived + c.length - hdr.length) := by
      rw [hu, List.take_append_eq_append_take, List.take_of_length_le (by omega)]
    obtain ⟨s₃, hon, p1, p2, p3, p4, p5, p6⟩ :=
      @onData_sink_header_block parser past hdr hb hv hk (s.deliver c) _ hs.header hs.vm hsplit
    obtain ⟨s', calls, next, h, hr', hcase⟩ := receiveEventCb_of_sink_feed hC hon p1 p2 p3 p4
      (p5.trans hq) p6 (by rw [p6]; simp only [deliver]; omega)
    refine ⟨s', calls, next, h, hr', hcase.imp (fun ⟨hB, hq', hn⟩ => ⟨⟨hq', by omega, .inr hB⟩, hn⟩)
      (fun ⟨hge, hq', hn⟩ => ⟨max_le (by omega) hge, hq', hn⟩)⟩

theorem sinkWaiting_receiveEventCb (hb : IsHeaderBlock hdr)
    (hv : urlPrefix vscriptUrl (HttpRequestHeader.empty.ofRun (parser hdr)).url = some false)
    (hk : urlPrefix sinkholeUrl (HttpRequestHeader.empty.ofRun (parser hdr)).url = some true)
    (hC : declaredLength parser hdr < 2 ^ 64) {s : HttpSession}
    (hs : SinkWaiting parser hdr body s) {c : Bytes}
    (hc : (hdr ++ body).take s.bytesReceived ++ c <+: hdr ++ body) :
    ∃ s' calls next, s.receiveEventCb parser past c = .ok (s', calls, next) ∧
      s'.bytesReceived = s.bytesReceived + c.length ∧
      ((SinkWaiting parser hdr body s' ∧ ∃ n, next = .read n) ∨
        (max hdr.length (declaredLength parser hdr) ≤ s'.bytesReceived ∧
          (∃ b, s'.outgoingQueue = [b]) ∧ next = .idle)) := by
  rcases hs.phase with hH | hB
  · exact sinkHeader_receiveEventCb hb hv hk hC hH hs.queue hc
  · obtain ⟨s', calls, next, h, hr, hcase⟩ := @sinkBody_receiveEventCb parser past hdr hC s hB hs.queue c
    have hle : s.bytesReceived + c.length ≤ (hdr ++ body).length := by
      simpa [List.length_take_of_le hs.received_le] using hc.length_le
    have := hB.received_ge
    exact ⟨s', calls, next, h, hr, hcase.imp (fun ⟨hB', hq', hn⟩ => ⟨⟨hq', hr ▸ hle, .inr hB'⟩, hn⟩)
      (fun ⟨hge, hq', hn⟩ => ⟨max_le (by omega) hge, hq', hn⟩)⟩

theorem sinkWaiting_receiveRun (hb : IsHeaderBlock hdr)
    (hv : urlPrefix vscriptUrl (HttpRequestHeader.empty.ofRun (parser hdr)).url = some false)
    (hk : urlPrefix sinkholeUrl (HttpRequestHeader.empty.ofRun (parser hdr)).url = some true)
    (hC : declaredLength parser hdr < 2 ^ 64) :
    ∀ (chunks : List Bytes) {s : HttpSession}, SinkWaiting parser hdr body s →
      (hdr ++ body).take s.bytesReceived ++ chunks.flatten <+: hdr ++ body →
      ∃ s', s.receiveRun parser past chunks = .ok s' ∧
        ((SinkWaiting parser hdr body s' ∧
            s'.bytesReceived = s.bytesReceived + chunks.flatten.length) ∨
          ∃ pre c post, chunks = pre ++ c :: post ∧
            s.bytesReceived + pre.flatten.length < max hdr.length (declaredLength parser hdr) ∧
            s'.bytesReceived = s.bytesReceived + pre.flatten.length + c.length ∧
            max hdr.length (declaredLength parser hdr) ≤ s'.bytesReceived ∧
            ∃ b, s'.outgoingQueue = [b])
  | [], s, hs, _ => ⟨s, rfl, .inl ⟨hs, rfl⟩⟩
  | c :: cs, s, hs, hc => by
    have hc1 : (hdr ++ body).take s.bytesReceived ++ c <+: hdr ++ body :=
      (List.prefix_append _ _).trans (by simpa only [List.flatten_cons, List.append_assoc] using hc)
    obtain ⟨s1, calls, next, h1, hr, hcase⟩ :=
      @sinkWaiting_receiveEventCb parser past hdr body hb hv hk hC s hs c hc1
    rcases hcase with ⟨hw, n, rfl⟩ | ⟨hge, hq, rfl⟩
    · have hc2 : (hdr ++ body).take s1.bytesReceived ++ cs.flatten <+: hdr ++ body := by
        have e := take_append_of_prefix hc1
        rw [List.length_take_of_le hs.received_le] at e
        rw [hr, e, List.append_assoc]
        simpa only [List.flatten_cons] using hc
      obtain ⟨s', h', hcase'⟩ := sinkWaiting_receiveRun hb hv hk hC cs hw hc2
      refine ⟨s', by simp only [receiveRun, h1, Outcome.ok_bind, h'], ?_⟩
      rcases hcase' with ⟨hw', hr'⟩ | ⟨pre, c', post, rfl, hlt, hr', hge', hq'⟩
      · exact .inl ⟨hw', by simp only [hr', hr, List.flatten_cons, List.length_append]; omega⟩
      · refine .inr ⟨c :: pre, c', post, rfl, ?_, ?_, hge', hq'⟩ <;>
          simp only [List.flatten_cons, List.length_append] <;> omega
    · refine ⟨s1, by simp only [receiveRun, h1, Outcome.ok_bind]; rfl,
        .inr ⟨[], c, cs, rfl, by simpa using hs.received_lt, by simpa using hr, hge, hq⟩⟩

end Steps

end HttpSession

/-- A `/sinkhole/` response is queued on the first read that reaches the declared length. -/
theorem sinkhole_response_on_first_reaching {parser : HttpParser} {past : Nat → UInt8}
    {hdr body : Bytes} (hb : IsHeaderBlock hdr)
    (hv : urlPrefix vscriptUrl (HttpRequestHeader.empty.ofRun (parser hdr)).url = some false)
    (hk : urlPrefix sinkholeUrl (HttpRequestHeader.empty.ofRun (parser hdr)).url = some true)
    (hC : HttpSession.declaredLength parser hdr < 2 ^ 64) {s₀ : HttpSession}
    (h₀ : s₀.requestHeader = .empty) (h₁ : s₀.program.vm = false)
    (h₂ : s₀.expectedDataChunckSzSet = false) (h₃ : s₀.ubuf = []) (h₄ : s₀.bytesReceived = 0)
    (h₅ : s₀.outgoingQueue = []) {chunks : List Bytes} (hc : chunks.flatten <+: hdr ++ body) :
    ∃ s, s₀.receiveRun parser past chunks = .ok s ∧
      ((s.outgoingQueue = [] ∧ s.bytesReceived = chunks.flatten.length ∧
          s.bytesReceived < max hdr.length (HttpSession.declaredLength parser hdr)) ∨
        ∃ pre c post, chunks = pre ++ c :: post ∧
          pre.flatten.length < max hdr.length (HttpSession.declaredLength parser hdr) ∧
          s.bytesReceived = pre.flatten.length + c.length ∧
          max hdr.length (HttpSession.declaredLength parser hdr) ≤ s.bytesReceived ∧
          ∃ b, s.outgoingQueue = [b]) := by
  have hw₀ : HttpSession.SinkWaiting parser hdr body s₀ :=
    ⟨h₅, by simp [h₄], .inl ⟨h₀, h₁, h₂, by simp [h₃, h₄], by have := hb.four_le; omega⟩⟩
  obtain ⟨s, hs, hcase⟩ :=
    @HttpSession.sinkWaiting_receiveRun parser past hdr body hb hv hk hC chunks s₀ hw₀
      (by simpa [h₄] using hc)
  refine ⟨s, hs, ?_⟩
  rcases hcase with ⟨hw, hr⟩ | ⟨pre, c, post, rfl, hlt, hr, hge, hq⟩
  · exact .inl ⟨hw.queue, by simpa [h₄] using hr, hw.received_lt⟩
  · exact .inr ⟨pre, c, post, rfl, by simpa [h₄] using hlt, by simpa [h₄] using hr, hge, hq⟩

theorem sinkhole_response_on_two_reads :
    ∃ s, HttpSession.init.receiveRun
        (fun _ => ⟨[.url (ascii "/sinkhole/"), .field (ascii "Content-Length"), .value (ascii "50")], 50⟩)
        (fun _ => 0) [ascii "POST /sinkhole/ HTTP/1.1\r\nContent-Length: 50\r\n\r\n", ascii "ab"] = .ok s ∧
      ((s.outgoingQueue = [] ∧
          s.bytesReceived = [ascii "POST /sinkhole/ HTTP/1.1\r\nContent-Length: 50\r\n\r\n",
            ascii "ab"].flatten.length ∧
          s.bytesReceived < max 48 50) ∨
        ∃ pre c post, [ascii "POST /sinkhole/ HTTP/1.1\r\nContent-Length: 50\r\n\r\n", ascii "ab"] =
            pre ++ c :: post ∧
          pre.flatten.length < max 48 50 ∧ s.bytesReceived = pre.flatten.length + c.length ∧
          max 48 50 ≤ s.bytesReceived ∧ ∃ b, s.outgoingQueue = [b]) :=
  @sinkhole_response_on_first_reaching
    (fun _ => ⟨[.url (ascii "/sinkhole/"), .field (ascii "Content-Length"), .value (ascii "50")], 50⟩)
    (fun _ => 0) (ascii "POST /sinkhole/ HTTP/1.1\r\nContent-Length: 50\r\n\r\n") (ascii "ab")
    (by decide) (by decide) (by decide) (by decide) HttpSession.init rfl rfl rfl rfl rfl rfl _
    ⟨[], by simp⟩

end LServer
