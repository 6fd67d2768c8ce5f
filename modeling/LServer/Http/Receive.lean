import LServer.Http.Session

set_option autoImplicit false

namespace LServer

namespace HttpSession

section Phases
variable (parser : HttpParser) (hdr : Bytes) (N : Nat) (more : Bytes) (s : HttpSession)

end Phases

theorem take_append_of_prefix {req a b : Bytes} (h : a ++ b <+: req) :
    req.take (a.length + b.length) = a ++ b := by
  obtain ⟨t, rfl⟩ := h
  rw [← List.length_append, List.take_left]

section Run
variable {parser : HttpParser} {past : Nat → UInt8} {hdr more : Bytes} {N : Nat}

end Run

end HttpSession

namespace HttpSession

theorem receiveEventCb_header_block {parser : HttpParser} {run : ParserRun} {past : Nat → UInt8}
    {hdr more : Bytes} (hb : IsHeaderBlock hdr) (hp : parser hdr = run) :
    init.receiveEventCb parser past (hdr ++ more) = init.receiveEventCb (fun _ => run) past (hdr ++ more) :=
  receiveEventCb_of_tryParse_eq (by
    rw [show init.ubuf ++ (hdr ++ more) = hdr ++ more from List.nil_append _,
      HttpRequestHeader.tryParse_append hb, HttpRequestHeader.tryParse_append hb, hp])

end HttpSession

/-- `check_finished` counts the header bytes, so the response can precede the body. -/
theorem response_queued_before_body (parser : HttpParser) (past : Nat → UInt8)
    (hp : parser (ascii "POST /sinkhole/ HTTP/1.1\r\nContent-Length: 50\r\n\r\n") =
      ⟨[.url (ascii "/sinkhole/"), .field (ascii "Content-Length"), .value (ascii "50")], 50⟩) :
    (fun r => (r.1.bytesReceived, r.1.program.bytesProcessedCnt, r.1.program.finished,
        r.1.outgoingQueue, r.2.2)) <$>
      HttpSession.init.receiveEventCb parser past
        (ascii "POST /sinkhole/ HTTP/1.1\r\nContent-Length: 50\r\n\r\n" ++ ascii "ab") =
      .ok (50, 2, true, [ascii "HTTP/1.1 200 OK\r\nContent-Length: 0\r\nConnection: Close\r\n\r\n"],
        .idle) := by
  rw [HttpSession.receiveEventCb_header_block (by decide) hp]
  rfl

theorem response_queued_after_two_body_bytes :
    (fun _ => ⟨[.url (ascii "/sinkhole/"), .field (ascii "Content-Length"), .value (ascii "50")], 50⟩ :
      HttpParser) (ascii "POST /sinkhole/ HTTP/1.1\r\nContent-Length: 50\r\n\r\n") =
      ⟨[.url (ascii "/sinkhole/"), .field (ascii "Content-Length"), .value (ascii "50")], 50⟩ ∧
    (fun r => (r.1.bytesReceived, r.1.program.bytesProcessedCnt, r.1.program.finished,
        r.1.outgoingQueue, r.2.2)) <$>
      HttpSession.init.receiveEventCb
        (fun _ => ⟨[.url (ascii "/sinkhole/"), .field (ascii "Content-Length"), .value (ascii "50")], 50⟩)
        (fun _ => 0) (ascii "POST /sinkhole/ HTTP/1.1\r\nContent-Length: 50\r\n\r\n" ++ ascii "ab") =
      .ok (50, 2, true, [ascii "HTTP/1.1 200 OK\r\nContent-Length: 0\r\nConnection: Close\r\n\r\n"],
        .idle) :=
  ⟨rfl, response_queued_before_body _ _ rfl⟩

/-- `async_receive` can be asked for more bytes than the request has left. -/
theorem async_receive_past_expected (parser : HttpParser) (past : Nat → UInt8)
    (h30 : parser (ascii "POST /vscript/ HTTP/1.1\r\nContent-Length: 30\r\n\r\n") =
      ⟨[.url (ascii "/vscript/"), .field (ascii "Content-Length"), .value (ascii "30")], 30⟩)
    (h48 : parser (ascii "POST /vscript/ HTTP/1.1\r\nContent-Length: 48\r\n\r\n") =
      ⟨[.url (ascii "/vscript/"), .field (ascii "Content-Length"), .value (ascii "48")], 48⟩) :
    (fun r => (r.1.bytesReceived, r.1.expectedDataChunckSz, r.2.2)) <$>
      HttpSession.init.receiveEventCb parser past
        (ascii "POST /vscript/ HTTP/1.1\r\nContent-Length: 30\r\n\r\n" ++ ascii "2") =
      .ok (48, 30, .read (256 * 1024)) ∧
    HttpSession.init.receiveEventCb parser past
        (ascii "POST /vscript/ HTTP/1.1\r\nContent-Length: 48\r\n\r\n" ++ ascii "2") = .thrown := by
  rw [HttpSession.receiveEventCb_header_block (by decide) h30,
    HttpSession.receiveEventCb_header_block (by decide) h48]
  exact ⟨rfl, rfl⟩

theorem async_receive_past_expected_on_declared_headers :
    ∃ parser : HttpParser,
      parser (ascii "POST /vscript/ HTTP/1.1\r\nContent-Length: 30\r\n\r\n") =
        ⟨[.url (ascii "/vscript/"), .field (ascii "Content-Length"), .value (ascii "30")], 30⟩ ∧
      parser (ascii "POST /vscript/ HTTP/1.1\r\nContent-Length: 48\r\n\r\n") =
        ⟨[.url (ascii "/vscript/"), .field (ascii "Content-Length"), .value (ascii "48")], 48⟩ ∧
      (fun r => (r.1.bytesReceived, r.1.expectedDataChunckSz, r.2.2)) <$>
        HttpSession.init.receiveEventCb parser (fun _ => 0)
          (ascii "POST /vscript/ HTTP/1.1\r\nContent-Length: 30\r\n\r\n" ++ ascii "2") =
        .ok (48, 30, .read (256 * 1024)) ∧
      HttpSession.init.receiveEventCb parser (fun _ => 0)
          (ascii "POST /vscript/ HTTP/1.1\r\nContent-Length: 48\r\n\r\n" ++ ascii "2") = .thrown := by
  let parser : HttpParser := fun x =>
    if x = ascii "POST /vscript/ HTTP/1.1\r\nContent-Length: 30\r\n\r\n" then
      ⟨[.url (ascii "/vscript/"), .field (ascii "Content-Length"), .value (ascii "30")], 30⟩
    else ⟨[.url (ascii "/vscript/"), .field (ascii "Content-Length"), .value (ascii "48")], 48⟩
  exact ⟨parser, if_pos rfl, if_neg (by decide),
    async_receive_past_expected parser (fun _ => 0) (if_pos rfl) (if_neg (by decide))⟩

end LServer
