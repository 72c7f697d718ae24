import Mathlib.Algebra.Group.Nat.Defs
import Mathlib.Algebra.Ring.Int.Defs
import Mathlib.Data.Int.Notation
import Mathlib.Data.List.Basic
import Mathlib.Data.List.Infix
import Meridian.Cpp.WsFrames
import Meridian.Lib.Numeral
import Meridian.Lib.Pieces

/-!
# `https_request`: the body of a response

Model of `https_request` and of `TlsConn::read_exact` and `read_some` of
`exchange/cpp/src/net_utils.cpp` (123-147, 171-256). What the server sends comes in pieces, one for each
`SSL_read` that would take all it can get; an empty piece is a silence of more than five seconds. The
connection is there, `write_all` sends the request whole, and there is memory for the body.

Results:
* `read_exact_eq`: however the stream is cut, `read_exact` is the one of the WebSocket frames;
* `decodes_exactly`: a chunked body and one with a Content-Length are returned as they are, for every
  spelling and every cut, if the header that counts says how the body is framed;
* `readBody_until_close`: without either header it is all that comes before a silence;
* `content_length_throws`: a Content-Length that is no number throws;
* `later_header_overrides`: the last header of a kind is the one that counts.
-/

namespace Meridian.HttpBody

open Numeral Pieces

/-! ## Texts and numbers -/

/-- The bytes of an ASCII text. -/
def ascii (s : String) : List UInt8 := s.toList.map fun c => UInt8.ofNat c.toNat

/-- `::tolower` -/
def tolower (c : UInt8) : UInt8 := if 65 ≤ c ∧ c ≤ 90 then c + 32 else c

/-- What is thrown, with its text; OpenSSL's own follows the one of a `runtime_error`. -/
inductive Thrown where
  | runtime_error (what : String)
  | invalid_argument (what : String)
  | out_of_range (what : String)
  | length_error
  deriving DecidableEq

/-- `std::stoi` and `std::stol`: the number of a text, within so many bits. -/
def signed (name : String) (bits : ℕ) (s : List UInt8) : Except Thrown ℤ :=
  match strto 10 s with
  | none => .error (.invalid_argument name)
  | some x =>
    let z : ℤ := if x.1 then -x.2 else x.2
    if -2 ^ (bits - 1) ≤ z ∧ z < 2 ^ (bits - 1) then .ok z else .error (.out_of_range name)

def stoi : List UInt8 → Except Thrown ℤ := signed "stoi" 32

def stol : List UInt8 → Except Thrown ℤ := signed "stol" 64

/-- `std::stoul(s, nullptr, 16)` -/
def stoul (s : List UInt8) : Except Thrown ℕ :=
  match strto 16 s with
  | none => .error (.invalid_argument "stoul")
  | some x =>
    if 2 ^ 64 ≤ x.2 then .error (.out_of_range "stoul")
    else .ok (if x.1 then (2 ^ 64 - x.2) % 2 ^ 64 else x.2)

/-! ## The connection -/

variable (ssl_err_str : String)

/-- What `read_exact` throws. -/
def readFailed : Thrown := .runtime_error ("SSL_read failed (read_exact): " ++ ssl_err_str)

/-- `SSL_read`, `none` where it returns no positive count. -/
def SSL_read (num : ℤ) (conn : List (List UInt8)) : Option (List UInt8 × List (List UInt8)) :=
  if 0 < num then next num.toNat conn else none

/-- One round of the loop of `read_exact`; the count is cast to `int`. -/
def readExactStep (n : ℕ) (buf : List UInt8) :
    Reader UInt8 Thrown (List UInt8 ⊕ List UInt8) := fun conn =>
  if n ≤ buf.length then .ok (.inr buf, conn)
  else
    match SSL_read (Int.bmod (n - buf.length : ℕ) (2 ^ 32)) conn with
    | none => .error (readFailed ssl_err_str)
    | some x => .ok (.inl (buf ++ x.1), x.2)

/-- `TlsConn::read_exact` (`net_utils.cpp:123-131`). -/
def read_exact (n : ℕ) : Reader UInt8 Thrown (List UInt8) :=
  forever (readFailed ssl_err_str) (readExactStep ssl_err_str n) []

/-- `TlsConn::read_some` (`net_utils.cpp:133-147`), `none` where it returns 0 or -1. -/
def read_some (n : ℕ) : List (List UInt8) → Option (List UInt8 × List (List UInt8))
  | [] :: _ => none
  | conn => SSL_read n conn

/-! ## The response -/

/-- One round of `read_line`. -/
def readLineStep (line : List UInt8) : Reader UInt8 Thrown (List UInt8 ⊕ List UInt8) := do
  let c ← read_exact ssl_err_str 1
  return if c = [10] then .inr line else if c = [13] then .inl line else .inl (line ++ c)

/-- `read_line` -/
def read_line : Reader UInt8 Thrown (List UInt8) :=
  forever (readFailed ssl_err_str) (readLineStep ssl_err_str) []

/-- The status of a status line. -/
def statusOf (status_line : List UInt8) : Except Thrown ℤ :=
  if 32 ∈ status_line then stoi (((status_line.dropWhile (· ≠ 32)).drop 1).take 3) else .ok 0

/-- What the headers say of the body. -/
structure Framing where
  transfer_encoding : List UInt8 := []
  content_length : ℤ := -1
  deriving DecidableEq

/-- One header line. -/
def parseHeader (f : Framing) (line : List UInt8) : Except Thrown Framing :=
  if 58 ∉ line then .ok f
  else do
    let name := (line.takeWhile (· ≠ 58)).map tolower
    let value := (line.dropWhile (· ≠ 58)).drop 1
    let value := if value.head? = some 32 then value.drop 1 else value
    let f ←
      if name = ascii "content-length" then
        (stol value).map fun n => { f with content_length := n }
      else .ok f
    return if name = ascii "transfer-encoding" then { f with transfer_encoding := value } else f

/-- One round of the header loop. -/
def headerStep (f : Framing) : Reader UInt8 Thrown (Framing ⊕ Framing) := do
  let line ← read_line ssl_err_str
  if line = [] then return .inr f
  else do
    let f ← parseHeader f line
    return .inl f

def readHeaders : Reader UInt8 Thrown Framing :=
  forever (readFailed ssl_err_str) (headerStep ssl_err_str) {}

/-- One chunk. A vector has no more than `PTRDIFF_MAX` items. -/
def chunkStep (resp_body : List UInt8) : Reader UInt8 Thrown (List UInt8 ⊕ List UInt8) := do
  let size_line ← read_line ssl_err_str
  let chunk_size ← stoul size_line
  if chunk_size = 0 then return .inr resp_body
  else if 2 ^ 63 ≤ chunk_size then throw .length_error
  else do
    let chunk ← read_exact ssl_err_str chunk_size
    let _ ← read_line ssl_err_str
    return .inl (resp_body ++ chunk)

/-- One `read_some` of a body that only the end of the connection ends. -/
def untilCloseStep (resp_body : List UInt8) :
    Reader UInt8 Thrown (List UInt8 ⊕ List UInt8) := fun conn =>
  match read_some 4096 conn with
  | none => .ok (.inr resp_body, conn)
  | some x => .ok (.inl (resp_body ++ x.1), x.2)

/-- `transfer_encoding.find("chunked")` finds it. -/
def Framing.chunked (f : Framing) : Prop := ascii "chunked" <:+: f.transfer_encoding

instance (f : Framing) : Decidable f.chunked := inferInstanceAs (Decidable (_ <:+: _))

/-- The body. -/
def readBody (f : Framing) : Reader UInt8 Thrown (List UInt8) :=
  if f.chunked then forever (readFailed ssl_err_str) (chunkStep ssl_err_str) []
  else if 0 ≤ f.content_length then read_exact ssl_err_str f.content_length.toNat
  else forever (readFailed ssl_err_str) untilCloseStep []

structure HttpResponse where
  status : ℤ
  body : List UInt8
  deriving DecidableEq

/-- What is read of a response. -/
def readResponse : Reader UInt8 Thrown HttpResponse := do
  let status_line ← read_line ssl_err_str
  let status ← statusOf status_line
  let f ← readHeaders ssl_err_str
  let resp_body ← readBody ssl_err_str f
  return ⟨status, resp_body⟩

/-- The request, its headers in the order of the map. -/
def requestText (host method path_and_query : String) (headers : List (String × String))
    (body : String) : String :=
  method ++ " " ++ path_and_query ++ " HTTP/1.1\r\n" ++ "Host: " ++ host ++ "\r\n" ++
    "Connection: close\r\n" ++
    (if body = "" then "" else "Content-Length: " ++ toString body.utf8ByteSize ++ "\r\n") ++
    String.join (headers.map fun h => h.1 ++ ": " ++ h.2 ++ "\r\n") ++ "\r\n" ++ body

/-- `https_request` (`net_utils.cpp:171-256`), against a server that answers a host's request. -/
def https_request (server : String → String → List (List UInt8))
    (host method path_and_query : String) (headers : List (String × String)) (body : String) :
    Except Thrown HttpResponse :=
  (readResponse ssl_err_str (server host (requestText host method path_and_query headers body))).map
    Prod.fst

/-! ## Exact reads -/

variable {ssl_err_str}

theorem SSL_read_some {num : ℤ} {conn : List (List UInt8)} {x : List UInt8 × List (List UInt8)}
    (h : SSL_read num conn = some x) :
    0 < num ∧ x.1 ≠ [] ∧ x.1.length ≤ num.toNat ∧ conn.flatten = x.1 ++ x.2.flatten := by
  obtain ⟨hnum, hnext⟩ := Option.ite_none_right_eq_some.mp h
  have hpos : 0 < num.toNat := by omega
  rcases next_of_flatten hpos conn with ⟨-, hnone⟩ | ⟨l, conn', hsome, hne, hle, hflat⟩
  · rw [hnone] at hnext
    cases hnext
  · rw [hsome] at hnext
    obtain rfl := Option.some.inj hnext
    exact ⟨hnum, hne, hle, hflat⟩

theorem SSL_read_none {num : ℤ} {conn : List (List UInt8)} (hnum : 0 < num)
    (h : SSL_read num conn = none) : conn.flatten = [] := by
  rw [SSL_read, if_pos hnum] at h
  have hpos : 0 < num.toNat := by omega
  rcases next_of_flatten hpos conn with ⟨hnil, -⟩ | ⟨l, conn', hsome, -⟩
  · exact hnil
  · rw [hsome] at h
    cases h

/-- A read takes something. -/
theorem length_of_SSL_read {num : ℤ} {conn : List (List UInt8)}
    {x : List UInt8 × List (List UInt8)} (h : SSL_read num conn = some x) :
    x.2.flatten.length < conn.flatten.length := by
  obtain ⟨-, hne, -, hflat⟩ := SSL_read_some h
  have hpos : 0 < x.1.length := List.length_pos_of_ne_nil hne
  rw [hflat, List.length_append]
  omega

/-- Of the bytes that come next a read takes the first ones. -/
theorem SSL_read_append {l rest : List UInt8} {conn : List (List UInt8)} (hl : l ≠ [])
    (hconn : conn.flatten = l ++ rest) : ∃ l1 l2 conn1, SSL_read l.length conn = some (l1, conn1) ∧
      l = l1 ++ l2 ∧ l1 ≠ [] ∧ conn1.flatten = l2 ++ rest := by
  have hpos : 0 < l.length := List.length_pos_of_ne_nil hl
  rcases hread : SSL_read l.length conn with - | ⟨l1, conn1⟩
  · rw [SSL_read_none (by omega) hread] at hconn
    exact absurd (List.append_eq_nil_iff.mp hconn.symm).1 hl
  · obtain ⟨-, hne, hle, hflat⟩ := SSL_read_some hread
    rw [Int.toNat_natCast] at hle
    have hprefix : l1 <+: l ++ rest := ⟨_, hflat.symm.trans hconn⟩
    obtain ⟨l2, rfl⟩ := List.prefix_of_prefix_length_le hprefix (List.prefix_append _ _) hle
    rw [hflat, List.append_assoc] at hconn
    exact ⟨l1, l2, conn1, rfl, rfl, hne, List.append_cancel_left hconn⟩

/-- A count that fits an `int` stays what it is. -/
theorem bmod_small {n : ℕ} (h : n < 2 ^ 31) : Int.bmod n (2 ^ 32) = n := by
  have hpow : ((2 ^ 32 : ℕ) : ℤ) = 4294967296 := rfl
  rw [Int.bmod_def, hpow]
  split
  · omega
  · omega

/-- A larger count is cut down to less than what is to be read, and by enough. -/
theorem bmod_large {n : ℕ} (h : 2 ^ 31 ≤ n) (hpos : 0 < Int.bmod n (2 ^ 32)) :
    (Int.bmod n (2 ^ 32)).toNat + 2 ^ 32 ≤ n := by
  have hpow : ((2 ^ 32 : ℕ) : ℤ) = 4294967296 := rfl
  rw [Int.bmod_def, hpow] at hpos ⊢
  split at hpos
  · rename_i hlow
    rw [if_pos hlow]
    omega
  · omega

theorem progress_readExactStep (n : ℕ) : Progress (readExactStep ssl_err_str n) := by
  intro buf conn buf' conn' h
  unfold readExactStep at h
  split at h
  · obtain ⟨h, -⟩ := Prod.mk.inj (Except.ok.inj h)
    cases h
  · split at h
    · cases h
    · rename_i x hread
      obtain ⟨-, rfl⟩ := Prod.mk.inj (Except.ok.inj h)
      exact length_of_SSL_read hread

/-- A round that asks for `k` more bytes. -/
theorem readExactStep_eq {n k : ℕ} {buf : List UInt8} (hn : buf.length + k = n) (hpos : 0 < k)
    (hk : k < 2 ^ 31) {conn conn' : List (List UInt8)} {l : List UInt8}
    (hread : SSL_read k conn = some (l, conn')) :
    readExactStep ssl_err_str n buf conn = .ok (.inl (buf ++ l), conn') := by
  have hgo : ¬n ≤ buf.length := by omega
  have hleft : n - buf.length = k := by omega
  rw [readExactStep, if_neg hgo, hleft, bmod_small hk, hread]

/-- The loop of `read_exact`, from what is read already. -/
theorem reads_exact_loop {n : ℕ} : ∀ {l buf : List UInt8}, buf.length + l.length = n →
    l.length < 2 ^ 31 →
    Reads (forever (readFailed ssl_err_str) (readExactStep ssl_err_str n) buf) l (buf ++ l) := by
  intro l
  induction h : l.length using Nat.strong_induction_on generalizing l with
  | _ k ih =>
    intro buf hn hk conn rest hconn
    rw [forever_eq (progress_readExactStep n)]
    rcases Nat.eq_zero_or_pos k with h0 | hpos
    · have hl : l = [] := List.length_eq_zero_iff.mp (h.trans h0)
      have hend : readExactStep ssl_err_str n buf conn = .ok (.inr buf, conn) :=
        if_pos (by omega)
      rw [hend, hl, List.append_nil]
      rw [hl, List.nil_append] at hconn
      exact ⟨conn, rfl, hconn⟩
    · have hl : l ≠ [] := List.ne_nil_of_length_pos (h ▸ hpos)
      obtain ⟨l1, l2, conn1, hread, rfl, hne, hconn1⟩ := SSL_read_append hl hconn
      have hl1 : 0 < l1.length := List.length_pos_of_ne_nil hne
      rw [h] at hread
      rw [List.length_append] at h
      have hn2 : (buf ++ l1).length + l2.length = n := by
        rw [List.length_append]
        omega
      -- what is still to come is shorter, and the loop goes on with it
      obtain ⟨conn', hrun, hconn'⟩ :=
        ih l2.length (by omega) rfl hn2 (by omega) conn1 rest hconn1
      refine ⟨conn', ?_, hconn'⟩
      rw [readExactStep_eq hn hpos hk hread]
      simp only
      rw [hrun, List.append_assoc]

/-- **An exact read** takes as many bytes as it is asked for. -/
theorem reads_exact {l : List UInt8} (h : l.length < 2 ^ 31) :
    Reads (read_exact ssl_err_str l.length) l l :=
  reads_exact_loop (Nat.zero_add _) h

/-- The loop of `read_exact` where there is too little, or where the count fits no `int`. -/
theorem read_exact_loop_throws {n : ℕ} : ∀ {conn : List (List UInt8)} {buf : List UInt8},
    buf.length < n → 2 ^ 31 ≤ n - buf.length ∨ conn.flatten.length < n - buf.length →
    forever (readFailed ssl_err_str) (readExactStep ssl_err_str n) buf conn =
      .error (readFailed ssl_err_str) := by
  intro conn
  induction h : conn.flatten.length using Nat.strong_induction_on generalizing conn with
  | _ k ih =>
    intro buf hlt hshort
    have hgo : ¬n ≤ buf.length := by omega
    rw [forever_eq (progress_readExactStep n), readExactStep, if_neg hgo]
    rcases hread : SSL_read (Int.bmod (n - buf.length : ℕ) (2 ^ 32)) conn with - | ⟨l1, conn1⟩
    · rfl
    · obtain ⟨hnum, hne, hle, hflat⟩ := SSL_read_some hread
      simp only at hne hle hflat ⊢
      have hl1 : 0 < l1.length := List.length_pos_of_ne_nil hne
      rw [hflat, List.length_append] at h
      have hleft : n - (buf ++ l1).length = n - buf.length - l1.length := by
        rw [List.length_append]
        omega
      have hrest : 2 ^ 31 ≤ n - buf.length - l1.length ∨
          conn1.flatten.length < n - buf.length - l1.length := by
        rcases Nat.lt_or_ge (n - buf.length) (2 ^ 31) with hsmall | hlarge
        · rw [bmod_small hsmall] at hle
          omega
        · have hcut := bmod_large hlarge hnum
          omega
      exact ih conn1.flatten.length (by omega) rfl (by rw [List.length_append]; omega)
        (by rwa [hleft])

/-- **However the stream is cut**, `read_exact` does what it does to the bytes. -/
theorem read_exact_eq (n : ℕ) (conn : List (List UInt8)) :
    (read_exact ssl_err_str n conn).map (fun x => (x.1, x.2.flatten)) =
      (WsFrames.read_exact n conn.flatten).elim (.error (readFailed ssl_err_str)) .ok := by
  unfold WsFrames.read_exact
  split
  · rename_i hn
    have hlen : (conn.flatten.take n).length = n := List.length_take_of_le hn.2
    have hread := @reads_exact ssl_err_str (conn.flatten.take n)
      (by rw [hlen]; exact hn.1)
    rw [hlen] at hread
    obtain ⟨conn', hrun, hconn'⟩ := hread conn _ (List.take_append_drop n _).symm
    rw [hrun]
    exact congrArg (fun rest => Except.ok (conn.flatten.take n, rest)) hconn'
  · rename_i hn
    have hthrow : read_exact ssl_err_str n conn = .error (readFailed ssl_err_str) :=
      read_exact_loop_throws (by rw [List.length_nil]; omega) (by rw [List.length_nil]; omega)
    rw [hthrow]
    rfl

/-- What was read is what came first. -/
theorem read_exact_ok {n : ℕ} {conn conn' : List (List UInt8)} {l : List UInt8}
    (h : read_exact ssl_err_str n conn = .ok (l, conn')) :
    n ≤ conn.flatten.length ∧ conn'.flatten = conn.flatten.drop n := by
  have heq := @read_exact_eq ssl_err_str n conn
  rw [h] at heq
  unfold WsFrames.read_exact at heq
  split at heq
  · rename_i hn
    exact ⟨hn.2, congrArg Prod.snd (Except.ok.inj heq)⟩
  · cases heq

/-! ## Lines -/

theorem takes_readLineStep (line : List UInt8) : Takes (readLineStep ssl_err_str line) := by
  refine Takes.bind (fun conn l conn' h => ?_) fun c => shrinks_pure _
  obtain ⟨hle, hdrop⟩ := read_exact_ok h
  rw [hdrop, List.length_drop]
  omega

theorem takes_read_line : Takes (read_line ssl_err_str) := takes_forever takes_readLineStep _

theorem reads_readLineStep (line : List UInt8) (c : UInt8) :
    Reads (readLineStep ssl_err_str line) [c]
      (if c = 10 then .inr line else if c = 13 then .inl line else .inl (line ++ [c])) := by
  have hlen : [c].length < 2 ^ 31 := by
    rw [List.length_singleton]
    decide
  have hread : Reads (read_exact ssl_err_str 1) [c] [c] := reads_exact hlen
  have hstep : Reads (readLineStep ssl_err_str line) [c]
      (if [c] = [10] then .inr line else if [c] = [13] then .inl line else .inl (line ++ [c])) :=
    reads_bind hread (reads_pure _)
  simpa only [List.cons.injEq, and_true] using hstep

/-- The rounds of `read_line`. -/
theorem rounds_line {l : List UInt8} (hl : 10 ∉ l) : ∀ line : List UInt8,
    Rounds (readLineStep ssl_err_str) line (l ++ [10]) (line ++ l.filter (· ≠ 13)) := by
  induction l with
  | nil =>
    intro line
    rw [List.filter_nil, List.append_nil]
    exact .last (reads_readLineStep line 10)
  | cons c l ih =>
    intro line
    rw [List.mem_cons, not_or] at hl
    obtain ⟨hc, hl⟩ := hl
    have hstep := @reads_readLineStep ssl_err_str line c
    rw [if_neg (Ne.symm hc)] at hstep
    have hcons : c :: l ++ [10] = [c] ++ (l ++ [10]) := rfl
    rw [hcons]
    by_cases h13 : c = 13
    · rw [if_pos h13] at hstep
      rw [List.filter_cons_of_neg (by simpa using h13)]
      exact .next hstep (ih hl line)
    · rw [if_neg h13] at hstep
      rw [List.filter_cons_of_pos (by simpa using h13), List.append_cons line]
      exact .next hstep (ih hl (line ++ [c]))

/-- A line is read to its end, without its carriage returns. -/
theorem reads_line {l : List UInt8} (hl : 10 ∉ l) :
    Reads (read_line ssl_err_str) (l ++ [10]) (l.filter (· ≠ 13)) :=
  reads_forever (progress_of_takes takes_readLineStep) (rounds_line hl [])

/-- Without carriage returns there is none to drop. -/
theorem filter_self {l : List UInt8} (h : 13 ∉ l) : l.filter (fun c => decide (c ≠ 13)) = l :=
  List.filter_eq_self.mpr fun _ hc => decide_eq_true (ne_of_mem_of_not_mem hc h)

/-- The end of a line. -/
def crlf : List UInt8 := [13, 10]

theorem reads_crlf {l : List UInt8} (hl : 10 ∉ l) :
    Reads (read_line ssl_err_str) (l ++ crlf) (l.filter (· ≠ 13)) := by
  have hcr : 10 ∉ l ++ [13] := by
    rw [List.mem_append, not_or]
    exact ⟨hl, by decide⟩
  have h := @reads_line ssl_err_str _ hcr
  have hdrop : [13].filter (fun c : UInt8 => decide (c ≠ 13)) = [] := rfl
  rwa [List.filter_append, hdrop, List.append_nil, List.append_assoc] at h

/-- A line with no carriage return in it. -/
theorem reads_crlf_self {l : List UInt8} (hl : 10 ∉ l) (hcr : 13 ∉ l) :
    Reads (read_line ssl_err_str) (l ++ crlf) l := by
  have h := @reads_crlf ssl_err_str _ hl
  rwa [filter_self hcr] at h

/-! ## What a server sends -/

/-- A status line: the version, a code of three digits and a reason. -/
structure StatusLine where
  version : List UInt8
  code : List UInt8
  reason : List UInt8
  version_ok : ∀ c ∈ version, c ≠ 32 ∧ c ≠ 10 ∧ c ≠ 13
  code_ok : ∀ c ∈ code, isDigit 10 c = true
  code_length : code.length = 3
  reason_ok : 10 ∉ reason

/-- A header field. -/
structure Header where
  name : List UInt8
  value : List UInt8
  name_ok : ∀ c ∈ name, c ≠ 58 ∧ c ≠ 10 ∧ c ≠ 13
  value_ok : ∀ c ∈ value, c ≠ 10 ∧ c ≠ 13

/-- A chunk's size line: any spelling of `n` in base 16, and an extension. -/
structure SizeLine (n : ℕ) where
  digits : List UInt8
  ext : List UInt8
  digits_ok : ∀ c ∈ digits, isDigit 16 c = true
  digits_ne : digits ≠ []
  digits_eq : Numeral.value 16 digits = n
  ext_ok : ∀ c ∈ ext.head?, c = 59
  ext_line : 10 ∉ ext

/-- A chunk. -/
structure Chunk where
  data : List UInt8
  data_ne : data ≠ []
  size : SizeLine data.length

def StatusLine.bytes (st : StatusLine) : List UInt8 :=
  st.version ++ 32 :: (st.code ++ st.reason) ++ crlf

def Header.line (h : Header) : List UInt8 := h.name ++ 58 :: 32 :: h.value

def Header.bytes (h : Header) : List UInt8 := h.line ++ crlf

def SizeLine.bytes {n : ℕ} (size : SizeLine n) : List UInt8 := size.digits ++ size.ext ++ crlf

def Chunk.bytes (c : Chunk) : List UInt8 := c.size.bytes ++ (c.data ++ crlf)

/-- The header has this name, in any case. -/
def Header.named (h : Header) (name : String) : Prop := h.name.map tolower = ascii name

instance (h : Header) (name : String) : Decidable (h.named name) :=
  inferInstanceAs (Decidable (_ = _))

/-- The value of the last header of this name. -/
def lastValue (name : String) : List Header → Option (List UInt8)
  | [] => none
  | h :: hs => (lastValue name hs).or (if h.named name then some h.value else none)

/-- The status line and the headers, with the empty line after them. -/
def head (st : StatusLine) (hs : List Header) : List UInt8 :=
  st.bytes ++ (hs.flatMap Header.bytes ++ crlf)

/-- The chunks, with the last one, which is empty. -/
def chunkedBody (chunks : List Chunk) (last : SizeLine 0) : List UInt8 :=
  chunks.flatMap Chunk.bytes ++ last.bytes

/-! ## The status line -/

theorem ends_nil (base : ℕ) : Ends base [] := fun _ hc => nomatch hc

/-- A number in decimal, as it is read. -/
theorem signed_digits {l : List UInt8} (hl : ∀ c ∈ l, isDigit 10 c = true) (hne : l ≠ [])
    (name : String) {bits : ℕ} (hlt : Numeral.value 10 l < 2 ^ (bits - 1)) :
    signed name bits l = .ok (Numeral.value 10 l) := by
  have hstrto := strto_digits (by decide : 10 ≤ 16) hl hne (ends_nil 10)
  rw [List.append_nil] at hstrto
  have hpow : (0 : ℤ) < 2 ^ (bits - 1) := Int.pow_pos (by decide)
  have hneg : -(2 : ℤ) ^ (bits - 1) ≤ Numeral.value 10 l := by omega
  unfold signed
  simp only [hstrto, Bool.false_eq_true, if_false]
  exact if_pos ⟨hneg, by exact_mod_cast hlt⟩

/-- What stands before a separator, and what stands after it. -/
theorem split_at {sep : UInt8} {l : List UInt8} (hl : ∀ c ∈ l, c ≠ sep) (rest : List UInt8) :
    (l ++ sep :: rest).takeWhile (· ≠ sep) = l ∧
    ((l ++ sep :: rest).dropWhile (· ≠ sep)).drop 1 = rest := by
  have hpos : ∀ c ∈ l, decide (c ≠ sep) = true := fun c hc => decide_eq_true (hl c hc)
  constructor
  · rw [List.takeWhile_append_of_pos hpos, List.takeWhile_cons_of_neg (by simp), List.append_nil]
  · rw [List.dropWhile_append_of_pos hpos, List.dropWhile_cons_of_neg (by simp), List.drop_one,
      List.tail_cons]

/-- The code of a status line. -/
def StatusLine.number (st : StatusLine) : ℕ := Numeral.value 10 st.code

theorem statusOf_bytes (st : StatusLine) (reason : List UInt8) :
    statusOf (st.version ++ 32 :: (st.code ++ reason)) = .ok st.number := by
  have hmem : 32 ∈ st.version ++ 32 :: (st.code ++ reason) :=
    List.mem_append_right _ (List.mem_cons_self ..)
  have hdrop := (split_at (fun c hc => (st.version_ok c hc).1) (st.code ++ reason)).2
  have hlt : Numeral.value 10 st.code < 2 ^ (32 - 1) := by
    have h := value_lt st.code_ok
    rw [st.code_length] at h
    omega
  have hne : st.code ≠ [] := List.ne_nil_of_length_pos (by rw [st.code_length]; decide)
  rw [statusOf, if_pos hmem, hdrop, List.take_left' st.code_length]
  exact signed_digits st.code_ok hne "stoi" hlt

theorem digit_ne_line {base : ℕ} (hbase : base ≤ 16) {l : List UInt8}
    (hl : ∀ c ∈ l, isDigit base c = true) : 10 ∉ l ∧ 13 ∉ l := by
  constructor
  · intro h
    exact (isDigit_sixteen (isDigit_mono hbase (hl 10 h))).2.2.2.2.2.1 rfl
  · intro h
    exact (isDigit_sixteen (isDigit_mono hbase (hl 13 h))).2.2.2.2.2.2 rfl

/-- The code of a status line is read. -/
theorem reads_status (st : StatusLine) :
    ∃ line, Reads (read_line ssl_err_str) st.bytes line ∧ statusOf line = .ok st.number := by
  obtain ⟨hcode, hcode'⟩ := digit_ne_line (by decide) st.code_ok
  have hline : 10 ∉ st.version ++ 32 :: (st.code ++ st.reason) := by
    simp only [List.mem_append, List.mem_cons, not_or]
    exact ⟨fun h => (st.version_ok 10 h).2.1 rfl, by decide, hcode, st.reason_ok⟩
  refine ⟨_, reads_crlf hline, ?_⟩
  have hversion : 13 ∉ st.version := fun h => (st.version_ok 13 h).2.2 rfl
  rw [List.filter_append, filter_self hversion, List.filter_cons_of_pos (by decide),
    List.filter_append, filter_self hcode']
  exact statusOf_bytes st _

/-! ## Headers -/

theorem takes_headerStep (f : Framing) : Takes (headerStep ssl_err_str f) := by
  refine takes_read_line.bind fun line => ?_
  split
  · exact shrinks_pure _
  · exact (shrinks_lift _).bind fun f => shrinks_pure _

/-- What a header line does. -/
theorem parseHeader_bytes (f : Framing) (h : Header) :
    parseHeader f h.line = (do
      let f ←
        if h.named "content-length" then
          (stol h.value).map fun n => { f with content_length := n }
        else .ok f
      return if h.named "transfer-encoding" then { f with transfer_encoding := h.value }
        else f) := by
  have hmem : ¬58 ∉ h.line :=
    not_not.mpr (List.mem_append_right _ (List.mem_cons_self ..))
  obtain ⟨hname, hvalue⟩ := split_at (fun c hc => (h.name_ok c hc).1) (32 :: h.value)
  have hblank : (32 :: h.value).head? = some 32 := rfl
  rw [parseHeader, if_neg hmem]
  simp only [Header.line, hname, hvalue, hblank, if_true, List.drop_one, List.tail_cons]
  rfl

theorem named_unique {h : Header} (hte : h.named "transfer-encoding") : ¬h.named "content-length" := by
  intro hcl
  have hname : ascii "transfer-encoding" = ascii "content-length" := hte.symm.trans hcl
  exact absurd hname (by decide)

/-- A header line whose Content-Length is a number. -/
theorem parse_framing {h : Header} (hcl : h.named "content-length" → ∃ n, stol h.value = .ok n)
    (f : Framing) : ∃ f', parseHeader f h.line = .ok f' ∧
      f'.transfer_encoding =
        (if h.named "transfer-encoding" then h.value else f.transfer_encoding) ∧
      (if h.named "content-length" then stol h.value else .ok f.content_length) =
        .ok f'.content_length := by
  rw [parseHeader_bytes]
  by_cases hte : h.named "transfer-encoding"
  · have hncl := named_unique hte
    simp only [if_pos hte, if_neg hncl]
    exact ⟨_, rfl, rfl, rfl⟩
  · simp only [if_neg hte]
    by_cases hcl' : h.named "content-length"
    · obtain ⟨n, hn⟩ := hcl hcl'
      simp only [if_pos hcl', hn]
      exact ⟨_, rfl, rfl, rfl⟩
    · simp only [if_neg hcl']
      exact ⟨_, rfl, rfl, rfl⟩

/-- The empty line ends the headers. -/
theorem reads_headerStep_end (f : Framing) : Reads (headerStep ssl_err_str f) crlf (.inr f) := by
  have hline : Reads (read_line ssl_err_str) crlf [] :=
    reads_crlf_self (l := []) (by decide) (by decide)
  exact reads_bind hline (reads_pure _)

/-- A header line is read, and is not taken for the empty one. -/
theorem reads_header_line (h : Header) :
    Reads (read_line ssl_err_str) h.bytes h.line ∧ h.line ≠ [] := by
  have hlf : 10 ∉ h.line := by
    simp only [Header.line, List.mem_append, List.mem_cons, not_or]
    exact ⟨fun hm => (h.name_ok 10 hm).2.1 rfl, by decide, by decide,
      fun hm => (h.value_ok 10 hm).1 rfl⟩
  have hcr : 13 ∉ h.line := by
    simp only [Header.line, List.mem_append, List.mem_cons, not_or]
    exact ⟨fun hm => (h.name_ok 13 hm).2.2 rfl, by decide, by decide,
      fun hm => (h.value_ok 13 hm).2 rfl⟩
  exact ⟨reads_crlf_self hlf hcr, List.append_ne_nil_of_right_ne_nil _ (List.cons_ne_nil _ _)⟩

theorem reads_headerStep {f f' : Framing} {h : Header} (hf : parseHeader f h.line = .ok f') :
    Reads (headerStep ssl_err_str f) h.bytes (.inl f') := by
  obtain ⟨hline, hne⟩ := @reads_header_line ssl_err_str h
  have hrest : Reads
      (if h.line = [] then pure (.inr f)
        else do
          let f ← parseHeader f h.line
          return .inl f : Reader UInt8 Thrown (Framing ⊕ Framing)) [] (.inl f') := by
    rw [if_neg hne]
    exact reads_bind (reads_lift hf) (reads_pure _)
  have hstep : Reads (headerStep ssl_err_str f) (h.bytes ++ []) (.inl f') := reads_bind hline hrest
  rwa [List.append_nil] at hstep

theorem throws_headerStep {f : Framing} {h : Header} {e : Thrown}
    (hf : parseHeader f h.line = .error e) : Throws (headerStep ssl_err_str f) h.bytes e := by
  obtain ⟨hline, hne⟩ := @reads_header_line ssl_err_str h
  have hrest : Throws
      (if h.line = [] then pure (.inr f)
        else do
          let f ← parseHeader f h.line
          return .inl f : Reader UInt8 Thrown (Framing ⊕ Framing)) [] e := by
    rw [if_neg hne]
    exact (throws_lift hf).bind _
  have hstep : Throws (headerStep ssl_err_str f) (h.bytes ++ []) e := throws_bind hline hrest
  rwa [List.append_nil] at hstep

/-- **The header loop** keeps the value of the last header of each kind. -/
theorem rounds_headers : ∀ {hs : List Header} {f : Framing},
    (∀ h ∈ hs, h.named "content-length" → ∃ n, stol h.value = .ok n) →
    ∃ f', Rounds (headerStep ssl_err_str) f (hs.flatMap Header.bytes ++ crlf) f' ∧
      f'.transfer_encoding = (lastValue "transfer-encoding" hs).getD f.transfer_encoding ∧
      ((lastValue "content-length" hs).map stol).getD (.ok f.content_length) =
        .ok f'.content_length := by
  intro hs
  induction hs with
  | nil =>
    intro f _
    exact ⟨f, .last (reads_headerStep_end f), rfl, rfl⟩
  | cons h hs ih =>
    intro f hcl
    obtain ⟨f1, hf1, hte, hlen⟩ := parse_framing (hcl h (List.mem_cons_self ..)) f
    obtain ⟨f', hrounds, hte', hlen'⟩ := ih (f := f1) fun h' hh' =>
      hcl h' (List.mem_cons_of_mem _ hh')
    refine ⟨f', ?_, ?_, ?_⟩
    · rw [List.flatMap_cons, List.append_assoc]
      exact .next (reads_headerStep hf1) hrounds
    · rw [hte', hte, lastValue]
      cases lastValue "transfer-encoding" hs with
      | some v => rfl
      | none =>
        rw [Option.none_or]
        split <;> rfl
    · rw [lastValue]
      cases hl : lastValue "content-length" hs with
      | some v =>
        rw [hl] at hlen'
        exact hlen'
      | none =>
        rw [hl] at hlen'
        have hone : ((if h.named "content-length" then some h.value else none).map stol).getD
            (.ok f.content_length) =
            if h.named "content-length" then stol h.value else .ok f.content_length := by
          split <;> rfl
        rw [Option.none_or, hone, hlen]
        exact hlen'

/-! ## The body -/

/-- A size line is read as its number, in any spelling and with any extension. -/
theorem reads_size {n : ℕ} (size : SizeLine n) (hn : n < 2 ^ 64) :
    ∃ line, Reads (read_line ssl_err_str) size.bytes line ∧ stoul line = .ok n := by
  obtain ⟨hdigits, hdigits'⟩ := digit_ne_line le_rfl size.digits_ok
  have hline : 10 ∉ size.digits ++ size.ext := by
    rw [List.mem_append, not_or]
    exact ⟨hdigits, size.ext_line⟩
  refine ⟨_, reads_crlf hline, ?_⟩
  have hends : Ends 16 (size.ext.filter fun c => decide (c ≠ 13)) := by
    intro c hc
    match hext : size.ext with
    | [] =>
      rw [hext] at hc
      exact nomatch hc
    | d :: ext =>
      have hd : d = 59 := size.ext_ok d (by rw [hext]; rfl)
      rw [hext, hd, List.filter_cons_of_pos (by decide)] at hc
      obtain rfl := Option.some.inj hc
      exact ⟨by decide, by decide, by decide⟩
  have hstrto := strto_digits le_rfl size.digits_ok size.digits_ne hends
  rw [size.digits_eq] at hstrto
  rw [List.filter_append, filter_self hdigits']
  unfold stoul
  simp only [hstrto, if_neg (Nat.not_le.mpr hn), Bool.false_eq_true, if_false]

theorem shrinks_read_exact (n : ℕ) : Shrinks (read_exact ssl_err_str n) := by
  intro conn l conn' h
  obtain ⟨-, hdrop⟩ := read_exact_ok h
  rw [hdrop, List.length_drop]
  omega

theorem takes_chunkStep (resp_body : List UInt8) : Takes (chunkStep ssl_err_str resp_body) := by
  refine takes_read_line.bind fun line => (shrinks_lift _).bind fun chunk_size => ?_
  split
  · exact shrinks_pure _
  · split
    · exact shrinks_throw _
    · exact (shrinks_read_exact _).bind fun chunk => takes_read_line.shrinks.bind fun _ =>
        shrinks_pure _

/-- The steps of one chunk after its size is known. -/
theorem reads_chunkStep_of {resp_body line l : List UInt8} {n : ℕ} {x : List UInt8 ⊕ List UInt8}
    {size : SizeLine n} (hline : Reads (read_line ssl_err_str) size.bytes line)
    (hn : stoul line = .ok n)
    (hrest : Reads
      (if n = 0 then pure (.inr resp_body)
        else if 2 ^ 63 ≤ n then throw .length_error
        else do
          let chunk ← read_exact ssl_err_str n
          let _ ← read_line ssl_err_str
          return .inl (resp_body ++ chunk)) l x) :
    Reads (chunkStep ssl_err_str resp_body) (size.bytes ++ l) x :=
  reads_bind hline (reads_bind (reads_lift hn) hrest)

theorem reads_chunkStep (resp_body : List UInt8) {c : Chunk} (hc : c.data.length < 2 ^ 31) :
    Reads (chunkStep ssl_err_str resp_body) c.bytes (.inl (resp_body ++ c.data)) := by
  obtain ⟨line, hline, hn⟩ := @reads_size ssl_err_str _ c.size (by omega)
  have hpos : c.data.length ≠ 0 := (List.length_pos_of_ne_nil c.data_ne).ne'
  have hlarge : ¬2 ^ 63 ≤ c.data.length := by omega
  refine reads_chunkStep_of hline hn ?_
  rw [if_neg hpos, if_neg hlarge]
  have hend : Reads (read_line ssl_err_str) crlf [] :=
    reads_crlf_self (l := []) (by decide) (by decide)
  have hdata : Reads
      (do
        let chunk ← read_exact ssl_err_str c.data.length
        let _ ← read_line ssl_err_str
        return .inl (resp_body ++ chunk) : Reader UInt8 Thrown (List UInt8 ⊕ List UInt8))
      (c.data ++ (crlf ++ [])) (.inl (resp_body ++ c.data)) :=
    reads_bind (reads_exact hc) (reads_bind hend (reads_pure _))
  rwa [List.append_nil] at hdata

theorem reads_chunkStep_last (resp_body : List UInt8) (last : SizeLine 0) :
    Reads (chunkStep ssl_err_str resp_body) last.bytes (.inr resp_body) := by
  obtain ⟨line, hline, hn⟩ := @reads_size ssl_err_str _ last (by decide)
  have h : Reads (chunkStep ssl_err_str resp_body) (last.bytes ++ []) (.inr resp_body) :=
    reads_chunkStep_of hline hn (reads_pure _)
  rwa [List.append_nil] at h

/-- **The chunks** are put together: one round for each, by induction on the chunks, and one for the
last size line. -/
theorem rounds_chunks {last : SizeLine 0} : ∀ {chunks : List Chunk} {resp_body : List UInt8},
    (chunks.map Chunk.data).flatten.length < 2 ^ 31 →
    Rounds (chunkStep ssl_err_str) resp_body (chunkedBody chunks last)
      (resp_body ++ (chunks.map Chunk.data).flatten) := by
  intro chunks
  induction chunks with
  | nil =>
    intro resp_body _
    rw [List.map_nil, List.flatten_nil, List.append_nil]
    exact .last (reads_chunkStep_last resp_body last)
  | cons c chunks ih =>
    intro resp_body hlen
    rw [List.map_cons, List.flatten_cons, List.length_append] at hlen
    have hbytes : chunkedBody (c :: chunks) last = c.bytes ++ chunkedBody chunks last := by
      rw [chunkedBody, List.flatMap_cons, List.append_assoc]
      rfl
    rw [hbytes, List.map_cons, List.flatten_cons, ← List.append_assoc]
    exact .next (reads_chunkStep resp_body (by omega)) (ih (by omega))

theorem reads_chunked {f : Framing} (hf : f.chunked) {chunks : List Chunk} {last : SizeLine 0}
    (hlen : (chunks.map Chunk.data).flatten.length < 2 ^ 31) :
    Reads (readBody ssl_err_str f) (chunkedBody chunks last) (chunks.map Chunk.data).flatten := by
  rw [readBody, if_pos hf]
  exact reads_forever (progress_of_takes takes_chunkStep) (rounds_chunks hlen)

theorem reads_counted {f : Framing} (hf : ¬f.chunked) {body : List UInt8}
    (hlen : body.length < 2 ^ 31) (hcount : f.content_length = body.length) :
    Reads (readBody ssl_err_str f) body body := by
  have hpos : 0 ≤ f.content_length := by omega
  have hnat : f.content_length.toNat = body.length := by omega
  rw [readBody, if_neg hf, if_pos hpos, hnat]
  exact reads_exact hlen

theorem progress_untilCloseStep : Progress untilCloseStep := by
  intro resp_body conn resp_body' conn' h
  unfold untilCloseStep at h
  split at h
  · cases h
  · rename_i x hread
    obtain ⟨-, rfl⟩ := Prod.mk.inj (Except.ok.inj h)
    unfold read_some at hread
    split at hread
    · cases hread
    · exact length_of_SSL_read hread

/-- Without a silence the loop goes on to the end of the connection. -/
theorem until_close : ∀ {conn : List (List UInt8)} {resp_body : List UInt8},
    (∀ piece ∈ conn, piece ≠ []) →
    forever (readFailed ssl_err_str) untilCloseStep resp_body conn =
      .ok (resp_body ++ conn.flatten, []) := by
  intro conn
  induction h : conn.flatten.length using Nat.strong_induction_on generalizing conn with
  | _ n ih =>
    intro resp_body hpieces
    rw [forever_eq progress_untilCloseStep, untilCloseStep]
    match conn, hpieces with
    | [], _ =>
      rw [List.flatten_nil, List.append_nil]
      rfl
    | [] :: _, hpieces => exact absurd rfl (hpieces [] List.mem_cons_self)
    | (b :: bs) :: pieces, hpieces =>
      have hread : read_some 4096 ((b :: bs) :: pieces) = next 4096 ((b :: bs) :: pieces) := rfl
      rcases next_of_flatten (by decide : 0 < 4096) ((b :: bs) :: pieces) with
        ⟨hnil, -⟩ | ⟨l, conn', hnext, hne, -, hflat⟩
      · cases hnil
      · have hpos : 0 < l.length := List.length_pos_of_ne_nil hne
        rw [hflat, List.length_append] at h
        simp only [hread, hnext]
        rw [ih conn'.flatten.length (by omega) rfl (next_ne_nil hpieces hnext), hflat,
          List.append_assoc]

/-- **A body that nothing counts** is all that comes until the server closes. -/
theorem readBody_until_close {f : Framing} (hf : ¬f.chunked) (hcount : f.content_length < 0)
    {conn : List (List UInt8)} (hpieces : ∀ piece ∈ conn, piece ≠ []) :
    readBody ssl_err_str f conn = .ok (conn.flatten, []) := by
  have hneg : ¬0 ≤ f.content_length := by omega
  rw [readBody, if_neg hf, if_neg hneg, until_close hpieces, List.nil_append]

/-- A response whose headers are read is read if its body is. -/
theorem reads_response (st : StatusLine) {hs : List Header} {f : Framing} {l body : List UInt8}
    (hf : Rounds (headerStep ssl_err_str) {} (hs.flatMap Header.bytes ++ crlf) f)
    (hbody : Reads (readBody ssl_err_str f) l body) :
    Reads (readResponse ssl_err_str) (head st hs ++ l) ⟨st.number, body⟩ := by
  obtain ⟨line, hline, hstatus⟩ := @reads_status ssl_err_str st
  have hheaders : Reads (readHeaders ssl_err_str) (hs.flatMap Header.bytes ++ crlf) f :=
    reads_forever (progress_of_takes takes_headerStep) hf
  have h : Reads (readResponse ssl_err_str)
      (st.bytes ++ ([] ++ (hs.flatMap Header.bytes ++ crlf ++ (l ++ [])))) ⟨st.number, body⟩ :=
    reads_bind hline (reads_bind (reads_lift hstatus)
      (reads_bind hheaders (reads_bind hbody (reads_pure _))))
  rw [List.append_nil, List.nil_append, ← List.append_assoc] at h
  exact h

theorem throws_headers {h : Header} {e : Thrown} (hh : h.named "content-length")
    (he : stol h.value = .error e) : ∀ {hs : List Header} {f : Framing},
    (∀ h ∈ hs, h.named "content-length" → ∃ n, stol h.value = .ok n) →
    Throws (forever (readFailed ssl_err_str) (headerStep ssl_err_str) f)
      (hs.flatMap Header.bytes ++ h.bytes) e := by
  intro hs
  have hprogress := progress_of_takes (@takes_headerStep ssl_err_str)
  induction hs with
  | nil =>
    intro f _
    refine throws_forever hprogress (throws_headerStep ?_)
    rw [parseHeader_bytes, if_pos hh, he]
    rfl
  | cons h' hs ih =>
    intro f hnum
    obtain ⟨f1, hf1, -⟩ := parse_framing (hnum h' (List.mem_cons_self ..)) f
    rw [List.flatMap_cons, List.append_assoc]
    exact throws_forever_next hprogress (reads_headerStep hf1)
      (ih fun h hh => hnum h (List.mem_cons_of_mem _ hh))

/-- A Content-Length that is no number throws, whatever else the headers say. -/
theorem content_length_throws {st : StatusLine} {hs : List Header} {h : Header} {e : Thrown}
    (hnum : ∀ h ∈ hs, h.named "content-length" → ∃ n, stol h.value = .ok n)
    (hh : h.named "content-length") (he : stol h.value = .error e) :
    Throws (readResponse ssl_err_str) (st.bytes ++ (hs.flatMap Header.bytes ++ h.bytes)) e := by
  obtain ⟨line, hline, hstatus⟩ := @reads_status ssl_err_str st
  have h : Throws (readResponse ssl_err_str)
      (st.bytes ++ ([] ++ (hs.flatMap Header.bytes ++ h.bytes))) e :=
    throws_bind hline (throws_bind (reads_lift hstatus) ((throws_headers hh he hnum).bind _))
  rwa [List.nil_append] at h

theorem https_request_of_reads {server : String → String → List (List UInt8)}
    {host method path_and_query : String} {headers : List (String × String)} {body : String}
    {l tail : List UInt8} {resp : HttpResponse} (h : Reads (readResponse ssl_err_str) l resp)
    (hserver : (server host (requestText host method path_and_query headers body)).flatten =
      l ++ tail) :
    https_request ssl_err_str server host method path_and_query headers body = .ok resp := by
  obtain ⟨conn', hrun, -⟩ := h _ tail hserver
  rw [https_request, hrun]
  rfl

/-- **Bodies decode exactly.** Whatever the chunks, the spelling of their sizes and the pieces the
stream comes in, a chunked body is returned as it is if the last Transfer-Encoding says `chunked`, and a
body that is counted is if the last Content-Length is its length; the other Content-Lengths are only to
be numbers. -/
theorem decodes_exactly (ssl_err_str : String) (server : String → String → List (List UInt8))
    (host method path_and_query : String) (headers : List (String × String)) (req : String)
    (st : StatusLine) (hs : List Header)
    (hnum : ∀ h ∈ hs, h.named "content-length" → ∃ n, stol h.value = .ok n)
    (body tail : List UInt8) (hlen : body.length < 2 ^ 31) :
    (∀ (chunks : List Chunk) (last : SizeLine 0) (v : List UInt8),
      (chunks.map Chunk.data).flatten = body →
      lastValue "transfer-encoding" hs = some v → ascii "chunked" <:+: v →
      (server host (requestText host method path_and_query headers req)).flatten =
        head st hs ++ chunkedBody chunks last ++ tail →
      https_request ssl_err_str server host method path_and_query headers req =
        .ok ⟨st.number, body⟩) ∧
    (∀ v, (∀ u, lastValue "transfer-encoding" hs = some u → ¬ascii "chunked" <:+: u) →
      lastValue "content-length" hs = some v → v ≠ [] → (∀ c ∈ v, isDigit 10 c = true) →
      Numeral.value 10 v = body.length →
      (server host (requestText host method path_and_query headers req)).flatten =
        head st hs ++ body ++ tail →
      https_request ssl_err_str server host method path_and_query headers req =
        .ok ⟨st.number, body⟩) := by
  obtain ⟨f, hrounds, hte, hcl⟩ := @rounds_headers ssl_err_str hs {} hnum
  constructor
  · intro chunks last v hbody hlast hv hserver
    have hf : f.chunked := by
      rw [Framing.chunked, hte, hlast]
      exact hv
    have hread := @reads_chunked ssl_err_str f hf chunks last
      (by rw [hbody]; exact hlen)
    rw [hbody] at hread
    exact https_request_of_reads (reads_response st hrounds hread) hserver
  · intro v hv hlast hne hdigits hvalue hserver
    have hf : ¬f.chunked := by
      rw [Framing.chunked, hte]
      cases hu : lastValue "transfer-encoding" hs with
      | some u => exact hv u hu
      | none => decide
    have hcount : f.content_length = body.length := by
      have hstol : stol v = .ok (Numeral.value 10 v) :=
        signed_digits hdigits hne "stol" (by rw [hvalue]; omega)
      rw [hlast, Option.map_some, Option.getD_some, hstol, hvalue] at hcl
      exact (Except.ok.inj hcl).symm
    exact https_request_of_reads (reads_response st hrounds (reads_counted hf hlen hcount)) hserver

/-- "HTTP/1.1 200 OK" -/
def ok200 : StatusLine where
  version := ascii "HTTP/1.1"
  code := ascii "200"
  reason := ascii " OK"
  version_ok := by decide +kernel
  code_ok := by decide +kernel
  code_length := rfl
  reason_ok := by decide +kernel

/-- "TRANSFER-encoding: chunked" -/
def chunkedHeader : Header where
  name := ascii "TRANSFER-encoding"
  value := ascii "chunked"
  name_ok := by decide +kernel
  value_ok := by decide +kernel

/-- "Transfer-Encoding: gzip" -/
def gzipHeader : Header where
  name := ascii "Transfer-Encoding"
  value := ascii "gzip"
  name_ok := by decide +kernel
  value_ok := by decide +kernel

/-- "Content-Length: x" -/
def unreadHeader : Header where
  name := ascii "Content-Length"
  value := ascii "x"
  name_ok := by decide +kernel
  value_ok := by decide +kernel

/-- "Content-Length: 012" -/
def twelveHeader : Header where
  name := ascii "Content-Length"
  value := ascii "012"
  name_ok := by decide +kernel
  value_ok := by decide +kernel

/-- A body that looks like the end of a chunked one. -/
def endings : List UInt8 := ascii "\r\n0\r\n\r\n0;b=\n"

/-- It in one chunk, of which the size is "00c;a=1". -/
def endingsChunk : Chunk where
  data := endings
  data_ne := by decide +kernel
  size :=
    { digits := ascii "00c", ext := ascii ";a=1"
      digits_ok := by decide +kernel, digits_ne := by decide +kernel
      digits_eq := by decide +kernel, ext_ok := by decide +kernel, ext_line := by decide +kernel }

/-- "0" -/
def lastChunk : SizeLine 0 where
  digits := ascii "0"
  ext := []
  digits_ok := by decide +kernel
  digits_ne := by decide +kernel
  digits_eq := by decide +kernel
  ext_ok := by decide +kernel
  ext_line := by decide +kernel

/-- Two pieces a response can come in. -/
def inPieces (k : ℕ) (l : List UInt8) : List (List UInt8) := [l.take k, l.drop k]

theorem decodes_endings :
    https_request "" (fun _ _ => inPieces 60 (head ok200 [chunkedHeader, twelveHeader] ++
        chunkedBody [endingsChunk] lastChunk ++ crlf)) "h" "GET" "/" [] "" = .ok ⟨200, endings⟩ ∧
    https_request "" (fun _ _ => inPieces 60 (head ok200 [twelveHeader] ++ endings ++ []))
      "h" "GET" "/" [] "" = .ok ⟨200, endings⟩ := by
  have hnum : ∀ h ∈ [chunkedHeader, twelveHeader], h.named "content-length" →
      ∃ n, stol h.value = .ok n := by
    intro h hh hcl
    rcases List.mem_pair.mp hh with rfl | rfl
    · exact absurd hcl (by decide +kernel)
    · exact ⟨12, by decide +kernel⟩
  constructor
  · exact (decodes_exactly "" _ "h" "GET" "/" [] "" ok200 [chunkedHeader, twelveHeader] hnum endings
      crlf (by decide +kernel)).1 [endingsChunk] lastChunk (ascii "chunked") rfl rfl List.infix_rfl
      (by decide +kernel)
  · refine (decodes_exactly "" _ "h" "GET" "/" [] "" ok200 [twelveHeader] (fun h hh => ?_) endings
      [] (by decide +kernel)).2 (ascii "012") (fun u hu => nomatch hu) rfl (by decide +kernel)
      (by decide +kernel) (by decide +kernel) (by decide +kernel)
    exact hnum h (List.mem_cons_of_mem _ hh)

/-- **The last header counts.** A Transfer-Encoding after the one that says `chunked` takes its place,
and the chunks are returned as they came; a Content-Length that is no number throws, though it would not
be needed. -/
theorem later_header_overrides :
    (∀ h ∈ [gzipHeader, unreadHeader], ∃ f ∈ [chunkedHeader, h],
      f.named "transfer-encoding" ∧ f.value = ascii "chunked") ∧
    https_request "" (fun _ _ => inPieces 60 (head ok200 [chunkedHeader, gzipHeader] ++
        chunkedBody [endingsChunk] lastChunk ++ crlf)) "h" "GET" "/" [] "" =
      .ok ⟨200, chunkedBody [endingsChunk] lastChunk ++ crlf⟩ ∧
    https_request "" (fun _ _ => inPieces 60 (head ok200 [chunkedHeader, unreadHeader] ++
        chunkedBody [endingsChunk] lastChunk ++ crlf)) "h" "GET" "/" [] "" =
      .error (.invalid_argument "stol") :=
  ⟨fun _ _ => ⟨chunkedHeader, List.mem_cons_self .., by decide +kernel, rfl⟩, by decide +kernel,
    by decide +kernel⟩

end Meridian.HttpBody
