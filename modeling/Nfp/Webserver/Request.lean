/-
  File:      Nfp/Webserver/Request.lean
  Subject:   THE REQUEST of the web servers: `analyze_http`, the same in example/webserver/httpd.c
             and example/webserver2/httpd2.c, and the file it makes `get_file` open.

  `analyze_http` cuts the URL out of whatever was received and passes it on: nothing looks for
  ".." in it, and `get_file` puts it behind the root directory in a buffer of 512 bytes. What it
  opens is under the root directory only as far as the request happens to be harmless.

  * `analyzeHttp_url` -- the URLs `get_file` is given: never empty (so `index.html` is never
    asked for), without a blank, without a NUL;
  * `StaysUnder` -- the path opened is the whole path and leads below the root directory;
  * **`staysUnder_iff`** -- for every root directory and everything received, just if the name asked
    for is `Confined`.
-/
import Mathlib.Data.List.TakeDrop
import Mathlib.Data.List.TakeWhile
import Nfp.Lib.Path
import Nfp.Webserver.Http

namespace Nfp.Webserver

open Nfp.Lib

/-- The bytes as a C string: up to the first NUL. -/
def cString (buf : List UInt8) : List UInt8 := buf.takeWhile (· ≠ 0)

/-- What `analyze_http` does: call `get_file`, return -1, or return 0 with nothing done. -/
inductive Analyzed where
  | file (url : List UInt8)
  | refused
  | ignored
  deriving DecidableEq, Repr

/-- **`analyze_http`** on the bytes received, which a NUL follows. The branch of `POST` only prints
    the request. -/
def analyzeHttp (http : List UInt8) : Analyzed :=
  if (ascii "GET ").isPrefixOf (cString http) then
    -- `while (*url == ' ') url++`, then `strchr(url, ' ')`
    let url := ((cString http).drop 4).dropWhile (· = 32)
    if 32 ∈ url then .file (url.takeWhile (· ≠ 32)) else .refused
  else .ignored

/-- **What is asked for is a name**: some bytes, no blank and no NUL among them. -/
theorem analyzeHttp_url {http url : List UInt8} (h : analyzeHttp http = .file url) :
    url ≠ [] ∧ 32 ∉ url ∧ 0 ∉ url := by
  unfold analyzeHttp at h
  split at h
  · dsimp only at h
    generalize hrest : ((cString http).drop 4).dropWhile (· = 32) = rest at h
    split at h
    · rename_i hblank
      cases h
      have hnul : 0 ∉ rest := by
        intro hmem
        rw [← hrest] at hmem
        have htext : 0 ∈ cString http :=
          List.mem_of_mem_drop ((List.dropWhile_sublist _).subset hmem)
        simpa using List.mem_takeWhile_imp htext
      refine ⟨?_, fun hmem => ?_, fun hmem => hnul ((List.takeWhile_sublist _).subset hmem)⟩
      · -- the blanks were skipped, so the URL begins with another byte
        intro hnil
        cases rest with
        | nil => cases hblank
        | cons c rest =>
            have hhead := @List.head_dropWhile_not _ (fun c : UInt8 => decide (c = 32))
              ((cString http).drop 4) (by rw [hrest]; exact List.cons_ne_nil _ _)
            have hc : c ≠ 32 := by simpa [hrest] using hhead
            rw [List.takeWhile_cons_of_pos (by simpa using hc)] at hnil
            cases hnil
      · simpa using List.mem_takeWhile_imp hmem
    · cases h
  · cases h

/-! ## Where the file is -/

/-- Where a path leads, `.` and `..` resolved lexically. -/
def place (path : List UInt8) : Place (List UInt8) := placeOf 47 46 path

/-- The components of a name, on their own. -/
def climb (name : List UInt8) : Place (List UInt8) := wander (movesOf 47 46 name)

/-- **The file opened is under the root**: whatever is asked for, the path `get_file` opens is the
    whole of root, slash and name, and leads into the root directory; `orSelf` tells whether the
    root directory itself counts. -/
def StaysUnder (orSelf : Bool) (srv : Server) (root http : List UInt8) : Prop :=
  ∀ url, analyzeHttp http = .file url →
    filePath root (srv.fileName url) = root ++ 47 :: srv.fileName url ∧
      (place root).Inside orSelf (place (filePath root (srv.fileName url)))

/-- **A name that stays under the root**: it fits the buffer, and on its own it climbs no higher
    than the root directory is deep, and past directories only that it comes down into again. -/
structure Confined (orSelf : Bool) (root name : List UInt8) : Prop where
  rooted : root ≠ []
  fits : root.length + 1 + name.length ≤ 511
  climbs : (place root).absolute = true ∨ (climb name).climbed ≤ (place root).names.length
  returns : (place root).last (climb name).climbed <+: (climb name).names
  proper : orSelf = false → (place root).last (climb name).climbed ≠ (climb name).names

/-- The path is not cut just if it fits the buffer. -/
theorem filePath_whole_iff (root name : List UInt8) :
    filePath root name = root ++ 47 :: name ↔ root.length + 1 + name.length ≤ 511 := by
  unfold filePath
  rw [List.take_eq_self_iff, List.length_append, List.length_cons]
  omega

/-- Without a root directory every path is absolute. -/
theorem place_unrooted (name : List UInt8) :
    (place (47 :: name)).absolute = true ∧ (place []).absolute = false := by
  unfold place placeOf
  rw [walk_absolute, walk_absolute]
  exact ⟨rfl, rfl⟩

/-- **Where the servers keep to their root directory**: for every root directory and every received
    buffer, just if the name asked for is confined to it. -/
theorem staysUnder_iff (orSelf : Bool) (srv : Server) (root http : List UInt8) :
    StaysUnder orSelf srv root http ↔
      ∀ url, analyzeHttp http = .file url → Confined orSelf root (srv.fileName url) := by
  refine forall_congr' fun url => imp_congr_right fun _ => ?_
  generalize srv.fileName url = name
  rw [filePath_whole_iff]
  by_cases hfits : root.length + 1 + name.length ≤ 511
  · have hwhole : filePath root name = root ++ 47 :: name := (filePath_whole_iff root name).mpr hfits
    rw [hwhole]
    by_cases hroot : root = []
    · subst hroot
      obtain ⟨habs, hrel⟩ := place_unrooted name
      refine ⟨fun h => ?_, fun h => absurd rfl h.rooted⟩
      have := h.2.absolute
      rw [List.nil_append, habs, hrel] at this
      cases this
    · have hjoin : place (root ++ 47 :: name) = (place root).walk (movesOf 47 46 name) :=
        placeOf_join hroot name
      rw [hjoin, inside_walk_iff]
      exact ⟨fun h => ⟨hroot, hfits, h.2.1, h.2.2.1, h.2.2.2⟩,
        fun h => ⟨hfits, h.climbs, h.returns, h.proper⟩⟩
  · exact ⟨fun h => absurd h.1 hfits, fun h => absurd h.fits hfits⟩

/-- Both servers open a file outside their default root directory. -/
theorem get_leaves_root :
    let http := ascii "GET /../../etc/passwd HTTP/1.0"
    analyzeHttp http = .file (ascii "/../../etc/passwd") ∧
      ∀ srv : Server,
        place (filePath (ascii "/var/www") (srv.fileName (ascii "/../../etc/passwd"))) =
          ⟨true, 0, [ascii "etc", ascii "passwd"]⟩ ∧
        ¬ StaysUnder true srv (ascii "/var/www") http := by
  have hget : analyzeHttp (ascii "GET /../../etc/passwd HTTP/1.0") =
      .file (ascii "/../../etc/passwd") := by decide
  have hplace : ∀ srv : Server,
      place (filePath (ascii "/var/www") (srv.fileName (ascii "/../../etc/passwd"))) =
        ⟨true, 0, [ascii "etc", ascii "passwd"]⟩ := by
    intro srv
    cases srv <;> decide
  refine ⟨hget, fun srv => ⟨hplace srv, fun h => ?_⟩⟩
  have hfront := (h _ hget).2.names
  rw [hplace srv] at hfront
  exact absurd hfront (by decide)

end Nfp.Webserver
