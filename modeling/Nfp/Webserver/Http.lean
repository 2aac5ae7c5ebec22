/-
  File:      Nfp/Webserver/Http.lean
  Subject:   THE RESPONSE of the web servers: `mysend`, `sendf` and `get_file` of
             example/webserver/httpd.c and example/webserver2/httpd2.c. The two copies of
             `get_file` differ in how they make a file name of the URL (`Server.fileName`).

  `get_file` sends its response in pieces: the status line and the header with `sendf`, whose
  result it ignores, then the file, 512 bytes at a time, with `mysend`, up to the first failure.
  A failure in one of the first two pieces therefore leaves a hole in the response when a later
  piece still gets through -- `nfp_send` may fail for a moment only, as with the send time-out of
  accepted sockets.

  * `Intact` -- the bytes accepted are the front of the response, and all of it if no `nfp_send`
    fails and enough of them take something;
  * `HeadUnbroken` -- no `nfp_send` fails while the status line and the header are sent, or none of
    the calls made after the failure accepts anything;
  * **`getFile_intact`** -- under it, for every request, file and sequence of answers of
    `nfp_send`, the response is intact; `getFile_broken` -- one failure is enough otherwise.
-/
import Nfp.Lib.Send

namespace Nfp.Webserver

open Nfp.Lib

/-- Text, as the bytes of its characters (all texts here are ASCII). -/
def ascii (text : String) : List UInt8 := text.toList.map fun c => c.toNat.toUInt8

/-- The two programs. -/
inductive Server where
  | httpd
  | httpd2
  deriving DecidableEq, Repr

/-- The file name of a URL: `index.html` for the empty one; httpd.c also drops a leading `/`. -/
def Server.fileName : Server → List UInt8 → List UInt8
  | _, [] => ascii "index.html"
  | .httpd, c :: url => if c = 47 then url else c :: url
  | .httpd2, c :: url => c :: url

/-- What follows the last `.` (`strrchr`). -/
def extension (name : List UInt8) : Option (List UInt8) :=
  if 46 ∈ name then some (name.reverse.takeWhile (· ≠ 46)).reverse else none

/-- The `else if` chain over the extension. -/
def mimeTable : List (String × String) :=
  [("html", "text/html"), ("htm", "text/html"), ("css", "text/css"), ("txt", "text/plain"),
    ("png", "image/png"), ("jpg", "image/jpg"), ("class", "application/x-java-applet"),
    ("jar", "application/java-archive"), ("pdf", "application/pdf"),
    ("swf", "application/x-shockwave-flash"), ("ico", "image/vnd.microsoft.icon"),
    ("js", "text/javascript")]

/-- `mime`, NULL if no extension matches. -/
def mimeOf (name : List UInt8) : Option String :=
  match extension name with
  | none => none
  | some ext => (mimeTable.find? fun e => ascii e.1 == ext).map Prod.snd

/-- `snprintf(bufo, sizeof(bufo), "%s/%s", root, name)`: cut to 511 bytes. -/
def filePath (root name : List UInt8) : List UInt8 := (root ++ 47 :: name).take 511

/-- The response to a file that cannot be opened. -/
def notFound : List UInt8 := ascii "HTTP/1.0 404 NOK\r\n\r\n"

def statusLine : List UInt8 := ascii "HTTP/1.0 200 OK\r\n"

/-- The optional `Content-Type` header and the blank line. -/
def headerLine : Option String → List UInt8
  | some mime => ascii ("Content-Type: " ++ mime ++ "\r\n\r\n")
  | none => ascii "\r\n"

/-- `sizeof(buf)` in `sendf`. -/
def sendfSize : Nat := 1024

/-- Every header `sendf` is given fits its buffer. -/
theorem headerLine_fits (name : List UInt8) : (headerLine (mimeOf name)).length < sendfSize := by
  have htable : ∀ e ∈ mimeTable, (headerLine (some e.2)).length < sendfSize := by
    simp [mimeTable, headerLine, ascii, sendfSize]
  unfold mimeOf
  split
  · decide
  · rename_i ext _
    cases hf : mimeTable.find? fun e => ascii e.1 == ext with
    | none => exact (by decide : (headerLine none).length < sendfSize)
    | some e => exact htable e (List.mem_of_find?_eq_some hf)

/-- The chunks of `fread(bufo, 1, size, f)` up to the end of the file. -/
def chunks (size : Nat) : Nat → List UInt8 → List (List UInt8)
  | 0, _ => []
  | fuel + 1, content =>
      if content = [] then [] else content.take size :: chunks size fuel (content.drop size)

/-- The chunks make up the file. -/
theorem chunks_flatten {size : Nat} (hs : 0 < size) (fuel : Nat) (content : List UInt8)
    (hf : content.length ≤ fuel) : (chunks size fuel content).flatten = content := by
  induction fuel generalizing content with
  | zero =>
      have hnil : content = [] := List.length_eq_zero_iff.mp (by omega)
      subst hnil
      rfl
  | succ fuel ih =>
      unfold chunks
      split
      · rename_i hnil
        exact hnil.symm
      · rename_i hne
        have hpos : 0 < content.length := List.length_pos_iff.mpr hne
        have hlen : (content.drop size).length ≤ fuel := by
          rw [List.length_drop]
          omega
        rw [List.flatten_cons, ih _ hlen, List.take_append_drop]

/-- **`mysend`**: any failure of `nfp_send` ends it. The code of the failure is `nfp_errno`. -/
def mysend (os : List (Outcome Nat)) (p : List UInt8) : Sent UInt8 Nat :=
  sendAll (fun _ => false) os p

/-- **`sendf`**: the formatted text. -/
def sendf (os : List (Outcome Nat)) (text : List UInt8) : Sent UInt8 Nat := mysend os text

/-- The next statement, whatever the result of the one before -- once that has returned. -/
def andThen (r : Sent UInt8 Nat) (k : List (Outcome Nat) → Sent UInt8 Nat) : Sent UInt8 Nat :=
  if r.status = .pending then r else (k r.rest).after r.calls r.sent

/-- The loop over the file: it ends with the first chunk that cannot be sent. -/
def sendFile (os : List (Outcome Nat)) (content : List UInt8) : Sent UInt8 Nat :=
  sendSeq (fun _ => false) os (chunks 512 content.length content)

/-- **`get_file`**, on the answers of `nfp_send`. `fopen` and `fread` are `files`. -/
def getFile (srv : Server) (files : List UInt8 → Option (List UInt8)) (root url : List UInt8)
    (os : List (Outcome Nat)) : Sent UInt8 Nat :=
  match files (filePath root (srv.fileName url)) with
  | none => sendf os notFound
  | some content =>
      andThen (sendf os statusLine) fun os =>
        andThen (sendf os (headerLine (mimeOf (srv.fileName url)))) fun os => sendFile os content

/-- **The intended response.** -/
def response (srv : Server) (files : List UInt8 → Option (List UInt8)) (root url : List UInt8) :
    List UInt8 :=
  match files (filePath root (srv.fileName url)) with
  | none => notFound
  | some content => statusLine ++ (headerLine (mimeOf (srv.fileName url)) ++ content)

/-! ## The property -/

/-- **What the peer gets**: always the front of the response; all of it if no `nfp_send` fails and
    the call returns -- which it does when enough of them take something. -/
structure Intact (os : List (Outcome Nat)) (r : Sent UInt8 Nat) (resp : List UInt8) : Prop where
  front : r.sent <+: resp
  whole : Willing os → r.status ≠ .pending → r.sent = resp
  ends : Willing os → resp.length ≤ accepting os → r.status ≠ .pending

/-- **The head of the response is not broken**: if an `nfp_send` fails while the status line is sent,
    none of those made for the header accepts anything; and if one fails while either is sent, none
    of those made for the file does. -/
def HeadUnbroken (os : List (Outcome Nat)) (header content : List UInt8) : Prop :=
  let os' := restAfter (fun _ => false) os statusLine.length
  let os'' := restAfter (fun _ => false) os' header.length
  (failsWithin (fun _ => false) os statusLine.length = true →
    takesSome (fun _ => false) os' = false) ∧
  (failsWithin (fun _ => false) os statusLine.length = true ∨
      failsWithin (fun _ => false) os' header.length = true →
    content = [] ∨ takesSome (fun _ => false) os'' = false)

instance (os : List (Outcome Nat)) (header content : List UInt8) :
    Decidable (HeadUnbroken os header content) :=
  inferInstanceAs (Decidable ((_ → _) ∧ (_ → _)))

/-! ## One piece after another -/

section Pieces

variable {os : List (Outcome Nat)} {p q : List UInt8} {k : List (Outcome Nat) → Sent UInt8 Nat}

theorem mysend_rest : (mysend os p).rest = restAfter (fun _ => false) os p.length :=
  sendAll_rest os p

theorem mysend_willing (h : Willing os) : Willing (mysend os p).rest := by
  rw [mysend_rest]
  exact h.rest p.length

/-- A call of `mysend` that has returned has sent everything or failed. -/
theorem mysend_returned (h : (mysend os p).status ≠ .pending) :
    (mysend os p).sent = p ∨ failsWithin (fun _ => false) os p.length = true := by
  have hf : (mysend os p).status.isFailed = failsWithin (fun _ => false) os p.length :=
    sendAll_fails os p
  cases hs : (mysend os p).status with
  | done => exact Or.inl (sendAll_done os p hs)
  | failed e =>
      rw [hs] at hf
      exact Or.inr hf.symm
  | pending => exact absurd hs h

/-- Nothing of a piece is sent where no `nfp_send` takes anything. -/
theorem mysend_nil (h : takesSome (fun _ => false) os = false) : (mysend os p).sent = [] := by
  by_cases hp : p = []
  · subst hp
    cases os <;> rfl
  · exact (sendAll_sent_nil_iff os hp).mpr h

/-- **The front of two pieces**: when the first fails, nothing more may come. -/
theorem andThen_front (hq : (k (mysend os p).rest).sent <+: q)
    (hquiet : failsWithin (fun _ => false) os p.length = true → (k (mysend os p).rest).sent = []) :
    (andThen (mysend os p) k).sent <+: p ++ q := by
  have hp : (mysend os p).sent <+: p ++ q := (sendAll_front os p).trans (List.prefix_append p q)
  unfold andThen
  split
  · exact hp
  · rename_i hret
    rw [Sent.after_sent]
    rcases mysend_returned hret with hall | hfail
    · rw [hall]
      exact (List.prefix_append_right_inj p).mpr hq
    · rw [hquiet hfail, List.append_nil]
      exact hp

/-- Both pieces, whole, when nothing fails. -/
theorem andThen_whole (hw : Willing os)
    (hq : (k (mysend os p).rest).status ≠ .pending → (k (mysend os p).rest).sent = q)
    (hret : (andThen (mysend os p) k).status ≠ .pending) :
    (andThen (mysend os p) k).sent = p ++ q := by
  unfold andThen at hret ⊢
  split at hret
  · rename_i hpend
    exact absurd hpend hret
  · rename_i hdone
    rw [if_neg hdone, Sent.after_sent]
    rcases mysend_returned hdone with hall | hfail
    · rw [hall, hq hret]
    · rw [hw.failsWithin] at hfail
      cases hfail

/-- Both pieces return when enough of the answers take something. -/
theorem andThen_ends (hw : Willing os) (hn : p.length + q.length ≤ accepting os)
    (hq : q.length ≤ accepting (mysend os p).rest → (k (mysend os p).rest).status ≠ .pending) :
    (andThen (mysend os p) k).status ≠ .pending := by
  have hends : (mysend os p).status = .done ∧ _ := sendAll_ends hw p (by omega)
  obtain ⟨hdone, hleft⟩ := hends
  have hq' := hq (by unfold mysend; omega)
  unfold andThen
  rw [if_neg (by rw [hdone]; nofun), Sent.after_status]
  exact hq'

end Pieces

section File

variable {os : List (Outcome Nat)} (content : List UInt8)

theorem fileChunks_flatten : (chunks 512 content.length content).flatten = content :=
  chunks_flatten (by decide) _ _ (Nat.le_refl _)

theorem sendFile_front : (sendFile os content).sent <+: content := by
  have h : (sendFile os content).sent <+: (chunks 512 content.length content).flatten :=
    sendSeq_front os _
  rw [fileChunks_flatten] at h
  exact h

theorem sendFile_nil (h : content = [] ∨ takesSome (fun _ => false) os = false) :
    (sendFile os content).sent = [] := by
  refine (sendSeq_sent_nil_iff os _).mpr ?_
  rw [fileChunks_flatten]
  exact h

theorem sendFile_whole (hw : Willing os) (hret : (sendFile os content).status ≠ .pending) :
    (sendFile os content).sent = content := by
  have hnf : (sendFile os content).status.isFailed = false := hw.sendSeq _
  cases hs : (sendFile os content).status with
  | done =>
      have h := sendSeq_done os _ hs
      rw [fileChunks_flatten] at h
      exact h
  | failed e =>
      rw [hs] at hnf
      cases hnf
  | pending => exact absurd hs hret

theorem sendFile_ends (hw : Willing os) (hn : content.length ≤ accepting os) :
    (sendFile os content).status ≠ .pending := by
  have hdone : (sendFile os content).status = .done :=
    sendSeq_ends hw _ (by rw [fileChunks_flatten]; exact hn)
  rw [hdone]
  nofun

end File

/-! ## The response -/

/-- **The response is intact** -- whatever the request, the file and the answers of `nfp_send` --
    when its head is not broken. -/
theorem getFile_intact (srv : Server) (files : List UInt8 → Option (List UInt8))
    (root url : List UInt8) (os : List (Outcome Nat))
    (h : ∀ content, files (filePath root (srv.fileName url)) = some content →
      HeadUnbroken os (headerLine (mimeOf (srv.fileName url))) content) :
    Intact os (getFile srv files root url os) (response srv files root url) := by
  unfold getFile response
  cases hf : files (filePath root (srv.fileName url)) with
  | none =>
      refine ⟨sendAll_front os notFound, fun hw hret => ?_, fun hw hn hpend => ?_⟩
      · rcases mysend_returned hret with hall | hfail
        · exact hall
        · rw [hw.failsWithin] at hfail
          cases hfail
      · have hdone : (mysend os notFound).status = .done := (sendAll_ends hw notFound hn).1
        exact absurd (hdone.symm.trans hpend) nofun
  | some content =>
      obtain ⟨hheader, hfile⟩ := h content hf
      generalize headerLine (mimeOf (srv.fileName url)) = header at hheader hfile ⊢
      refine ⟨?_, fun hw hret => ?_, fun hw hn => ?_⟩
      · refine andThen_front (andThen_front (sendFile_front content) fun hfail => ?_)
          fun hfail => ?_
        · -- the header fails: nothing of the file is accepted
          rw [mysend_rest] at hfail
          refine sendFile_nil content ?_
          rw [mysend_rest, mysend_rest]
          exact hfile (Or.inr hfail)
        · -- the status line fails: neither header nor file gets through
          have hhdr : (mysend (mysend os statusLine).rest header).sent = [] := by
            refine mysend_nil ?_
            rw [mysend_rest]
            exact hheader hfail
          have hnone :
              (sendFile (mysend (mysend os statusLine).rest header).rest content).sent = [] := by
            refine sendFile_nil content ?_
            rw [mysend_rest, mysend_rest]
            exact hfile (Or.inl hfail)
          unfold andThen
          split
          · exact hhdr
          · rw [Sent.after_sent]
            show (mysend (mysend os statusLine).rest header).sent ++ _ = []
            rw [hhdr]
            exact hnone
      · refine andThen_whole hw (fun hret => ?_) hret
        refine andThen_whole (mysend_willing hw) (fun hret => ?_) hret
        exact sendFile_whole content (mysend_willing (mysend_willing hw)) hret
      · rw [List.length_append, List.length_append] at hn
        refine andThen_ends hw (q := header ++ content) (by rw [List.length_append]; omega)
          fun hn' => ?_
        rw [List.length_append] at hn'
        refine andThen_ends (mysend_willing hw) hn' fun hn'' => ?_
        exact sendFile_ends content (mysend_willing (mysend_willing hw)) hn''

/-- A file of three bytes at every path. -/
def oneFile (_ : List UInt8) : Option (List UInt8) := some [1, 2, 3]

/-- The status line in two halves, the header, and a failure in the file. -/
theorem getFile_intact_short_file :
    HeadUnbroken [.took 9, .took 8, .took 100, .took 2, .failed 35] (headerLine (some "text/css"))
      [1, 2, 3] ∧
    Intact [.took 9, .took 8, .took 100, .took 2, .failed 35]
      (getFile .httpd oneFile (ascii "www") (ascii "/a.css")
        [.took 9, .took 8, .took 100, .took 2, .failed 35])
      (response .httpd oneFile (ascii "www") (ascii "/a.css")) :=
  ⟨by decide, getFile_intact _ _ _ _ _ fun content hcontent => by cases hcontent; decide⟩

/-- **The status line times out, the rest gets through**: in both servers the peer's stream starts
    with the header. -/
theorem getFile_broken :
    ¬ (getFile .httpd oneFile (ascii "www") (ascii "/a.css")
        [.failed 35, .took 100, .took 100]).sent <+:
      response .httpd oneFile (ascii "www") (ascii "/a.css") ∧
    ¬ (getFile .httpd2 oneFile (ascii "www") (ascii "/a.css")
        [.failed 35, .took 100, .took 100]).sent <+:
      response .httpd2 oneFile (ascii "www") (ascii "/a.css") := by
  decide

end Nfp.Webserver
