import Mathlib.Data.List.GetD
import Meridian.Cpp.HttpBody
import Meridian.Lib.HttpRequest

/-!
# Signed REST requests

Model of the signatures of `exchange/cpp/src/auth_utils.cpp` (184-300) and of the calls that carry them
(`rest_get`, `rest_post`, `rest_delete`, `rest_post_form`, `rest_post_private` of the four connectors).
OpenSSL's hashes and its base64 are parameters. `Crypto` says that base64 is written without line
breaks (`BIO_FLAGS_BASE64_NO_NL`) and that a SHA-256 has 32 bytes.

Results:
* `read_wire`: a server reads the call that `https_request` was given;
* `calls_accepted`: what it reads is signed as the rule of its exchange says;
* `signed_iff`: which calls have the same text signed.
-/

namespace Meridian.Signing

open Http

/-! ## Signatures -/

/-- What is used of OpenSSL. -/
structure Crypto where
  hmac_sha256 : Bytes → Bytes → Bytes
  hmac_sha512 : Bytes → Bytes → Bytes
  sha256 : Bytes → Bytes
  sha512 : Bytes → Bytes
  base64_encode : Bytes → String
  base64_decode : String → Bytes
  base64_word : ∀ b, Word (utf8 (base64_encode b))
  sha256_length : ∀ b, (sha256 b).length = 32

/-- `kHexChars` of `hex_encode` -/
def kHexChars : List Char := "0123456789abcdef".toList

/-- `hex_encode` (`auth_utils.cpp:184-193`). -/
def hex_encode (input : Bytes) : String :=
  String.ofList (input.flatMap fun byte : UInt8 =>
    [kHexChars.getD (byte >>> 4).toNat '0', kHexChars.getD (byte &&& 0x0f).toNat '0'])

variable (c : Crypto)

def kucoin_str_to_sign (timestamp method path body : String) : String :=
  timestamp ++ method ++ path ++ body

/-- `kucoin_sign` (`auth_utils.cpp:234-245`). -/
def kucoin_sign (api_secret timestamp method path body : String) : String :=
  c.base64_encode (c.hmac_sha256 (utf8 api_secret)
    (utf8 (kucoin_str_to_sign timestamp method path body)))

/-- `kucoin_sign_passphrase` (`auth_utils.cpp:247-253`). -/
def kucoin_sign_passphrase (api_secret passphrase : String) : String :=
  c.base64_encode (c.hmac_sha256 (utf8 api_secret) (utf8 passphrase))

def gate_str_to_sign (method path query timestamp body : String) : String :=
  method ++ "\n" ++ path ++ "\n" ++ query ++ "\n" ++ hex_encode (c.sha512 (utf8 body)) ++ "\n" ++
    timestamp

/-- `gate_sign` (`auth_utils.cpp:255-272`). -/
def gate_sign (api_secret method path query timestamp body : String) : String :=
  hex_encode (c.hmac_sha512 (utf8 api_secret)
    (utf8 (gate_str_to_sign c method path query timestamp body)))

/-- `mexc_sign` (`auth_utils.cpp:274-281`). -/
def mexc_sign (api_secret query_string : String) : String :=
  hex_encode (c.hmac_sha256 (utf8 api_secret) (utf8 query_string))

def kraken_message (path nonce encoded_post_body : String) : Bytes :=
  utf8 path ++ c.sha256 (utf8 (nonce ++ encoded_post_body))

/-- `kraken_sign` (`auth_utils.cpp:283-300`). -/
def kraken_sign (api_secret path nonce encoded_post_body : String) : String :=
  c.base64_encode (c.hmac_sha512 (c.base64_decode api_secret)
    (kraken_message c path nonce encoded_post_body))

/-! ## Calls -/

/-- What is passed to `https_request`, the headers in the order of the map. -/
structure Call where
  method : String
  path_and_query : String
  headers : List (String × String)
  body : String

/-- What the connectors sign with. -/
structure Credentials where
  api_key : String
  api_secret : String
  passphrase : String := ""

/-- `query.empty() ? path : path + "?" + query` -/
def full_path (path query : String) : String := if query = "" then path else path ++ "?" ++ query

section KuCoin

/-- `KuCoinConnector::make_auth_headers` (`kucoin_connector.cpp:142-160`), at the time it reads. -/
def kucoin_headers (k : Credentials) (now : ℕ) (method path query body : String) :
    List (String × String) :=
  let ts := toString now
  [("Content-Type", "application/json"),
    ("KC-API-KEY", k.api_key),
    ("KC-API-KEY-VERSION", "2"),
    ("KC-API-PASSPHRASE", kucoin_sign_passphrase c k.api_secret k.passphrase),
    ("KC-API-SIGN", kucoin_sign c k.api_secret ts method (full_path path query) body),
    ("KC-API-TIMESTAMP", ts)]

/-- `rest_get`, `rest_post` and `rest_delete` (`kucoin_connector.cpp:166-185`). -/
def kucoin_call (k : Credentials) (now : ℕ) (method path query body : String) : Call :=
  { method := method
    path_and_query := full_path path query
    headers := kucoin_headers c k now method path query body
    body := body }

end KuCoin

section Gate

/-- `GateConnector::make_auth_headers` (`gate_connector.cpp:151-165`). -/
def gate_headers (k : Credentials) (now : ℕ) (method path query body : String) :
    List (String × String) :=
  let ts := toString now
  [("Content-Type", "application/json"),
    ("KEY", k.api_key),
    ("SIGN", gate_sign c k.api_secret method path query ts body),
    ("Timestamp", ts)]

/-- `rest_get`, `rest_post` and `rest_delete` (`gate_connector.cpp:227-246`). -/
def gate_call (k : Credentials) (now : ℕ) (method path query body : String) : Call :=
  { method := method
    path_and_query := full_path path query
    headers := gate_headers c k now method path query body
    body := body }

/-- The message of `ws_sign` (`gate_connector.cpp:168-173`). -/
def gate_ws_message (channel : String) (ts : ℕ) : String :=
  "channel=" ++ channel ++ "&event=subscribe" ++ "&time=" ++ toString ts

/-- The message of `ws_sign_login` (`gate_connector.cpp:177-180`). -/
def gate_login_message (ts : ℕ) : String := "api\nspot.login\n\n" ++ toString ts

end Gate

section Mexc

/-- The query that `make_auth_query` signs (`mexc_connector.cpp:183-187`). -/
def mexc_query (now : ℕ) (base_query : String) : String :=
  if base_query = "" then "recvWindow=60000&timestamp=" ++ toString now
  else base_query ++ "&recvWindow=60000&timestamp=" ++ toString now

/-- `MexcConnector::make_auth_query` (`mexc_connector.cpp:183-190`). -/
def make_auth_query (k : Credentials) (now : ℕ) (base_query : String) : String :=
  mexc_query now base_query ++ "&signature=" ++ mexc_sign c k.api_secret (mexc_query now base_query)

/-- `rest_get`, `rest_post_form` and `rest_delete` (`mexc_connector.cpp:222-249`). -/
def mexc_call (k : Credentials) (now : ℕ) (method path query : String) : Call :=
  { method := method
    path_and_query := path ++ "?" ++ make_auth_query c k now query
    headers := [("Content-Type", "application/json"), ("X-MEXC-APIKEY", k.api_key)]
    body := "" }

end Mexc

section Kraken

/-- The body of `rest_post_private` (`kraken_connector.cpp:215-217`). -/
def kraken_body (nonce extra_body : String) : String :=
  if extra_body = "" then "nonce=" ++ nonce else "nonce=" ++ nonce ++ "&" ++ extra_body

/-- `KrakenConnector::rest_post_private` (`kraken_connector.cpp:197-222`). -/
def kraken_call (k : Credentials) (now : ℕ) (path extra_body : String) : Call :=
  let nonce := toString now
  let body := kraken_body nonce extra_body
  { method := "POST"
    path_and_query := path
    headers :=
      [("API-Key", k.api_key),
        ("API-Sign", kraken_sign c k.api_secret path nonce body),
        ("Content-Type", "application/x-www-form-urlencoded")]
    body := body }

end Kraken

/-! ## On the wire -/

/-- What `https_request` sends. -/
def wire (host : String) (call : Call) : Bytes :=
  utf8 (HttpBody.requestText host call.method call.path_and_query call.headers call.body)

/-- What a server is to read. -/
def received (host : String) (call : Call) : Request where
  method := utf8 call.method
  target := utf8 call.path_and_query
  headers :=
    (utf8 "Host", utf8 host) :: (utf8 "Connection", utf8 "close") ::
      ((if call.body = "" then [] else
        [(utf8 "Content-Length", decimal call.body.utf8ByteSize)]) ++
        call.headers.map fun h => (utf8 h.1, utf8 h.2))
  body := utf8 call.body

/-- A call that goes over the wire as it is: no blank, line end or colon stands where it would end a
field, and no header of the caller's takes the place of `Content-Length`. -/
structure Sendable (call : Call) : Prop where
  method : Word (utf8 call.method)
  target : Word (utf8 call.path_and_query)
  names : ∀ name ∈ call.headers.map Prod.fst, Word (utf8 name) ∧ 58 ∉ utf8 name ∧
    (utf8 name).map lower ≠ utf8 "content-length"
  values : ∀ value ∈ call.headers.map Prod.snd, Word (utf8 value)

theorem utf8_join (l : List String) : utf8 (String.join l) = l.flatMap utf8 := by
  induction l with
  | nil => rfl
  | cons s l ih => rw [String.join_cons, utf8_append, ih, List.flatMap_cons]

theorem utf8_field (name value : String) :
    utf8 (name ++ ": " ++ value ++ "\r\n") = writeField (utf8 name, utf8 value) := by
  have hcolon : utf8 ": " = [58, 32] := by decide
  have hend : utf8 "\r\n" = [13, 10] := by decide
  rw [utf8_append, utf8_append, utf8_append, hcolon, hend]
  rfl

/-- The request text is the request that a server is to read. -/
theorem wire_eq (host : String) (call : Call) : wire host call = write (received host call) := by
  have hblank : utf8 " " = [32] := by decide
  have hprotocol : utf8 " HTTP/1.1\r\n" = 32 :: (version ++ [13, 10]) := by decide
  have hend : utf8 "\r\n" = [13, 10] := by decide
  have hhost : utf8 "Host: " ++ utf8 host ++ [13, 10] = writeField (utf8 "Host", utf8 host) := by
    rw [← utf8_field, ← hend, ← utf8_append, ← utf8_append]
    rfl
  have hconnection : utf8 "Connection: close\r\n" =
      writeField (utf8 "Connection", utf8 "close") := by decide
  have hlength : utf8 (if call.body = "" then "" else
      "Content-Length: " ++ toString call.body.utf8ByteSize ++ "\r\n") =
      (if call.body = "" then [] else
        [(utf8 "Content-Length", decimal call.body.utf8ByteSize)]).flatMap writeField := by
    split
    · rfl
    · rw [List.flatMap_cons, List.flatMap_nil, List.append_nil, decimal, ← utf8_field]
      rfl
  have hheaders : (call.headers.map fun h => h.1 ++ ": " ++ h.2 ++ "\r\n").flatMap utf8 =
      (call.headers.map fun h => (utf8 h.1, utf8 h.2)).flatMap writeField := by
    rw [List.flatMap_map, List.flatMap_map]
    exact List.flatMap_congr fun h _ => utf8_field h.1 h.2
  unfold wire HttpBody.requestText write received
  simp only [utf8_append, utf8_join, hprotocol, hlength, hheaders, hblank, hend, hconnection,
    List.flatMap_cons, List.flatMap_append, ← hhost, List.append_assoc, List.cons_append,
    List.nil_append]

variable {host : String} {call : Call}

theorem Sendable.framed (h : Sendable call) : (received host call).framed = true := by
  have hnone : lookup (utf8 "content-length")
      (call.headers.map fun h => (utf8 h.1, utf8 h.2)) = none := by
    refine lookup_eq_none fun g hg => ?_
    obtain ⟨x, hx, rfl⟩ := List.mem_map.mp hg
    have hlower : (utf8 "content-length").map lower = utf8 "content-length" := by decide
    rw [hlower]
    exact (h.names x.1 (List.mem_map_of_mem hx)).2.2
  have hheader : (received host call).header (utf8 "content-length") =
      if call.body = "" then none else some (decimal call.body.utf8ByteSize) := by
    unfold Request.header received
    rw [lookup_cons_of_ne (by decide), lookup_cons_of_ne (by decide)]
    split
    · exact hnone
    · exact lookup_cons_of_eq (by decide)
  unfold Request.framed
  rw [hheader]
  split
  · rename_i hnone
    split at hnone
    · rename_i hbody
      rw [received, hbody]
      rfl
    · exact absurd hnone (by simp)
  · rename_i n hsome
    split at hsome
    · exact absurd hsome (by simp)
    · obtain rfl := Option.some.inj hsome
      exact decide_eq_true (congrArg decimal (length_utf8 call.body).symm)

theorem Sendable.clean (hhost : Word (utf8 host)) (h : Sendable call) :
    Clean (received host call) := by
  refine ⟨h.method, h.target, fun g hg => ?_, h.framed⟩
  have hword : ∀ name ∈ ["Host", "Connection", "Content-Length"],
      Word (utf8 name) ∧ 58 ∉ utf8 name := by decide
  rcases List.mem_cons.mp hg with rfl | hg
  · exact ⟨(hword "Host" (by simp)).1, (hword "Host" (by simp)).2, hhost⟩
  rcases List.mem_cons.mp hg with rfl | hg
  · exact ⟨(hword "Connection" (by simp)).1, (hword "Connection" (by simp)).2, by decide⟩
  rcases List.mem_append.mp hg with hg | hg
  · split at hg
    · exact absurd hg List.not_mem_nil
    · obtain rfl := List.mem_singleton.mp hg
      exact ⟨(hword "Content-Length" (by simp)).1, (hword "Content-Length" (by simp)).2,
        word_decimal _⟩
  · obtain ⟨x, hx, rfl⟩ := List.mem_map.mp hg
    obtain ⟨hname, hcolon, -⟩ := h.names x.1 (List.mem_map_of_mem hx)
    exact ⟨hname, hcolon, h.values x.2 (List.mem_map_of_mem hx)⟩

/-- **A server reads the call** that was sent, with the headers that `https_request` adds, whatever
the body holds. -/
theorem read_wire (hhost : Word (utf8 host)) (h : Sendable call) :
    read (wire host call) = some (received host call) := by
  rw [wire_eq]
  exact read_write (h.clean hhost)

/-! ## What the exchanges check -/

variable {c : Crypto} {k : Credentials}

/-- A server reads the call exactly as it was handed to `https_request`, and the rule of the exchange
accepts what it reads. -/
structure Accepted (accepts : Request → Prop) (host : String) (call : Call) : Prop where
  reads : read (wire host call) = some (received host call)
  accepted : accepts (received host call)

/-- KuCoin's rule (`auth_utils.h:66-92`) for a request of a key it knows. -/
def kucoin_accepts (c : Crypto) (k : Credentials) (r : Request) : Prop :=
  r.header (utf8 "KC-API-KEY") = some (utf8 k.api_key) ∧
    r.header (utf8 "KC-API-PASSPHRASE") =
      some (utf8 (c.base64_encode (c.hmac_sha256 (utf8 k.api_secret) (utf8 k.passphrase)))) ∧
    ∃ ts, r.header (utf8 "KC-API-TIMESTAMP") = some ts ∧
      r.header (utf8 "KC-API-SIGN") = some (utf8 (c.base64_encode
        (c.hmac_sha256 (utf8 k.api_secret) (ts ++ r.method ++ r.target ++ r.body))))

/-- Gate.io's rule (`auth_utils.h:94-110`); path and query are those of the target. -/
def gate_accepts (c : Crypto) (k : Credentials) (r : Request) : Prop :=
  r.header (utf8 "KEY") = some (utf8 k.api_key) ∧
    ∃ ts, r.header (utf8 "Timestamp") = some ts ∧
      r.header (utf8 "SIGN") = some (utf8 (hex_encode (c.hmac_sha512 (utf8 k.api_secret)
        (r.method ++ 10 :: (cut 63 r.target).1 ++ 10 :: (cut 63 r.target).2 ++
          10 :: utf8 (hex_encode (c.sha512 r.body)) ++ 10 :: ts))))

/-- MEXC's rule (`auth_utils.h:112-123`): the query ends in the signature of what comes before. -/
def mexc_accepts (c : Crypto) (k : Credentials) (r : Request) : Prop :=
  r.header (utf8 "X-MEXC-APIKEY") = some (utf8 k.api_key) ∧
    ∃ query, (cut 63 r.target).2 = query ++ utf8 "&signature=" ++
      utf8 (hex_encode (c.hmac_sha256 (utf8 k.api_secret) query))

/-- Kraken's rule (`auth_utils.h:125-143`); the nonce is the first field of the body. -/
def kraken_accepts (c : Crypto) (k : Credentials) (r : Request) : Prop :=
  r.header (utf8 "API-Key") = some (utf8 k.api_key) ∧
    ∃ nonce, (cut 61 (cut 38 r.body).1) = (utf8 "nonce", nonce) ∧
      r.header (utf8 "API-Sign") = some (utf8 (c.base64_encode
        (c.hmac_sha512 (c.base64_decode k.api_secret) (r.target ++ c.sha256 (nonce ++ r.body)))))

/-! ## What they are sent -/

/-- A call of words, on a path that ends where the query begins. -/
structure Plain (k : Credentials) (host method path query : String) : Prop where
  word_key : Word (utf8 k.api_key)
  word_host : Word (utf8 host)
  word_method : Word (utf8 method)
  word_path : Word (utf8 path)
  word_query : Word (utf8 query)
  mark : 63 ∉ utf8 path

variable {method path query body : String} {now : ℕ}

theorem visible_getD {l : List Char} {ch : Char}
    (h : (ch :: l).all fun x => 32 < x.toNat ∧ x.toNat < 128) (n : ℕ) :
    32 < (l.getD n ch).toNat ∧ (l.getD n ch).toNat < 128 := by
  simp only [List.all_eq_true, decide_eq_true_eq] at h
  rw [List.getD_eq_getElem?_getD]
  cases hget : l[n]? with
  | none => exact h ch List.mem_cons_self
  | some x => exact h x (List.mem_cons_of_mem ch (List.mem_of_getElem? hget))

theorem mem_hex_encode {input : Bytes} {ch : Char} (h : ch ∈ (hex_encode input).toList) :
    32 < ch.toNat ∧ ch.toNat < 128 := by
  have hhex : ∀ n, 32 < (kHexChars.getD n '0').toNat ∧ (kHexChars.getD n '0').toNat < 128 :=
    visible_getD (by decide)
  rw [hex_encode, String.toList_ofList] at h
  obtain ⟨b, -, hb⟩ := List.mem_flatMap.mp h
  rcases List.mem_cons.mp hb with rfl | hb
  · exact hhex _
  · rw [List.mem_singleton.mp hb]
    exact hhex _

theorem word_hex_encode (input : Bytes) : Word (utf8 (hex_encode input)) :=
  word_utf8 fun _ hch => mem_hex_encode hch

theorem word_full_path (hpath : Word (utf8 path)) (hquery : Word (utf8 query)) :
    Word (utf8 (full_path path query)) := by
  unfold full_path
  split
  · exact hpath
  · rw [utf8_append, utf8_append]
    exact word_append (word_append hpath (by decide)) hquery

/-- The target is cut where the path ends. -/
theorem cut_full_path (hmark : 63 ∉ utf8 path) :
    cut 63 (utf8 (full_path path query)) = (utf8 path, utf8 query) := by
  unfold full_path
  split
  · rename_i hnone
    rw [hnone]
    exact cut_of_not_mem hmark
  · have hq : utf8 "?" = [63] := by decide
    rw [utf8_append, utf8_append, hq, List.append_assoc, List.singleton_append, cut_append hmark]

/-- A header that the connector has set. -/
theorem header_received {name : String} (h : ∀ n ∈ ["Host", "Connection", "Content-Length"],
    (utf8 n).map lower ≠ (utf8 name).map lower) : (received host call).header (utf8 name) =
    lookup (utf8 name) (call.headers.map fun h => (utf8 h.1, utf8 h.2)) := by
  unfold Request.header received
  rw [lookup_cons_of_ne (h _ (by simp)), lookup_cons_of_ne (h _ (by simp))]
  split
  · rfl
  · exact lookup_cons_of_ne (h _ (by simp))

/-- **KuCoin** reads and accepts every call: the signature is over the timestamp, method, path,
query and body that it reads. -/
theorem kucoin_accepted (h : Plain k host method path query) :
    Accepted (kucoin_accepts c k) host (kucoin_call c k now method path query body) := by
  have hsend : Sendable (kucoin_call c k now method path query body) := by
    refine ⟨h.word_method, word_full_path h.word_path h.word_query, ?_, ?_⟩
    · show ∀ name ∈ ["Content-Type", "KC-API-KEY", "KC-API-KEY-VERSION", "KC-API-PASSPHRASE",
        "KC-API-SIGN", "KC-API-TIMESTAMP"], _
      decide
    · simp only [kucoin_call, kucoin_headers, List.map_cons, List.map_nil, List.forall_mem_cons]
      exact ⟨by decide, h.word_key, by decide, c.base64_word _, c.base64_word _, word_decimal now,
        by simp⟩
  refine ⟨read_wire h.word_host hsend, ?_, ?_, utf8 (toString now), ?_, ?_⟩
  all_goals
    rw [header_received (by decide)]
    simp only [kucoin_call, kucoin_headers, List.map_cons]
    repeat rw [lookup_cons_of_ne (by decide)]
    rw [lookup_cons_of_eq (by decide)]
  · rfl
  · simp only [kucoin_sign, kucoin_str_to_sign, received, utf8_append]

/-- **Gate.io** reads and accepts every call: the signature is over method, path, query, the hash of
the body and the timestamp that it reads. -/
theorem gate_accepted (h : Plain k host method path query) :
    Accepted (gate_accepts c k) host (gate_call c k now method path query body) := by
  have hsend : Sendable (gate_call c k now method path query body) := by
    refine ⟨h.word_method, word_full_path h.word_path h.word_query, ?_, ?_⟩
    · show ∀ name ∈ ["Content-Type", "KEY", "SIGN", "Timestamp"], _
      decide
    · simp only [gate_call, gate_headers, List.map_cons, List.map_nil, List.forall_mem_cons]
      exact ⟨by decide, h.word_key, word_hex_encode _, word_decimal now, by simp⟩
  refine ⟨read_wire h.word_host hsend, ?_, utf8 (toString now), ?_, ?_⟩
  all_goals
    rw [header_received (by decide)]
    simp only [gate_call, gate_headers, List.map_cons]
    repeat rw [lookup_cons_of_ne (by decide)]
    rw [lookup_cons_of_eq (by decide)]
  · have hline : utf8 "\n" = [10] := by decide
    simp only [gate_sign, gate_str_to_sign, received, utf8_append, hline, cut_full_path h.mark,
      List.append_assoc, List.cons_append, List.nil_append]

theorem word_mexc_query (hquery : Word (utf8 query)) : Word (utf8 (mexc_query now query)) := by
  unfold mexc_query
  split
  · rw [utf8_append]
    exact word_append (by decide) (word_decimal now)
  · rw [utf8_append, utf8_append]
    exact word_append (word_append hquery (by decide)) (word_decimal now)

/-- **MEXC** reads and accepts every call: the signature ends the query, and is over what stands
before it. -/
theorem mexc_accepted (h : Plain k host method path query) :
    Accepted (mexc_accepts c k) host (mexc_call c k now method path query) := by
  have hquery : Word (utf8 (make_auth_query c k now query)) := by
    unfold make_auth_query
    rw [utf8_append, utf8_append]
    exact word_append (word_append (word_mexc_query h.word_query) (by decide)) (word_hex_encode _)
  have hsend : Sendable (mexc_call c k now method path query) := by
    refine ⟨h.word_method, ?_, ?_, ?_⟩
    · simp only [mexc_call, utf8_append]
      exact word_append (word_append h.word_path (by decide)) hquery
    · show ∀ name ∈ ["Content-Type", "X-MEXC-APIKEY"], _
      decide
    · simp only [mexc_call, List.map_cons, List.map_nil, List.forall_mem_cons]
      exact ⟨by decide, h.word_key, by simp⟩
  refine ⟨read_wire h.word_host hsend, ?_, utf8 (mexc_query now query), ?_⟩
  · rw [header_received (by decide)]
    simp only [mexc_call, List.map_cons]
    rw [lookup_cons_of_ne (by decide), lookup_cons_of_eq (by decide)]
  · have hmark : utf8 "?" = [63] := by decide
    simp only [received, mexc_call, utf8_append, hmark, List.append_assoc, List.singleton_append,
      cut_append h.mark]
    simp only [make_auth_query, mexc_sign, utf8_append, List.append_assoc]

/-- The first field of the body is the nonce. -/
theorem cut_kraken_body (extra_body : String) :
    cut 61 (cut 38 (utf8 (kraken_body (toString now) extra_body))).1 =
      (utf8 "nonce", utf8 (toString now)) := by
  have hname : utf8 "nonce=" = utf8 "nonce" ++ [61] := by decide
  have hamp : utf8 "&" = [38] := by decide
  have hdigits : ∀ b ∈ utf8 (toString now), b ≠ 38 := fun b hb he => by
    have hge := (mem_decimal (n := now) hb).1
    rw [he] at hge
    exact absurd hge (by decide)
  have hfield : 38 ∉ utf8 ("nonce=" ++ toString now) := by
    rw [utf8_append, List.mem_append, not_or]
    exact ⟨by decide, fun h => hdigits 38 h rfl⟩
  have hfirst : (cut 38 (utf8 (kraken_body (toString now) extra_body))).1 =
      utf8 ("nonce=" ++ toString now) := by
    unfold kraken_body
    split
    · rw [cut_of_not_mem hfield]
    · rw [utf8_append, utf8_append, hamp, List.append_assoc, List.singleton_append,
        cut_append hfield]
  rw [hfirst, utf8_append, hname, List.append_assoc, List.singleton_append, cut_append (by decide)]

/-- **Kraken** reads and accepts every call: the signature is over the path, the nonce and the body
that it reads. -/
theorem kraken_accepted {extra_body : String} (h : Plain k host "POST" path "") :
    Accepted (kraken_accepts c k) host (kraken_call c k now path extra_body) := by
  have hsend : Sendable (kraken_call c k now path extra_body) := by
    refine ⟨h.word_method, h.word_path, ?_, ?_⟩
    · show ∀ name ∈ ["API-Key", "API-Sign", "Content-Type"], _
      decide
    · simp only [kraken_call, List.map_cons, List.map_nil, List.forall_mem_cons]
      exact ⟨h.word_key, c.base64_word _, by decide, by simp⟩
  refine ⟨read_wire h.word_host hsend, ?_, utf8 (toString now), ?_, ?_⟩
  · rw [header_received (by decide)]
    simp only [kraken_call, List.map_cons]
    rw [lookup_cons_of_eq (by decide)]
  · exact cut_kraken_body extra_body
  · rw [header_received (by decide)]
    simp only [kraken_call, List.map_cons]
    rw [lookup_cons_of_ne (by decide), lookup_cons_of_eq (by decide)]
    simp only [kraken_sign, kraken_message, received, utf8_append]

/-- **Every signed call** is read by a server exactly as it was handed to `https_request`, the added
`Host`, `Connection` and `Content-Length` headers with it, and the exchange that reads it accepts it. -/
theorem calls_accepted (c : Crypto) (k : Credentials) (host : String) (now : ℕ) :
    (∀ method path query body, Plain k host method path query →
      Accepted (kucoin_accepts c k) host (kucoin_call c k now method path query body) ∧
      Accepted (gate_accepts c k) host (gate_call c k now method path query body) ∧
      Accepted (mexc_accepts c k) host (mexc_call c k now method path query)) ∧
    ∀ path extra_body, Plain k host "POST" path "" →
      Accepted (kraken_accepts c k) host (kraken_call c k now path extra_body) :=
  ⟨fun _ _ _ _ h => ⟨kucoin_accepted h, gate_accepted h, mexc_accepted h⟩,
    fun _ _ h => kraken_accepted h⟩

/-! ### An account -/

/-- `base64_encode` -/
def base64Chars : List Char :=
  "ABCDEFGHIJKLMNOPQRSTUVWXYZabcdefghijklmnopqrstuvwxyz0123456789+/".toList

def base64 : Bytes → List Char
  | a :: b :: d :: rest =>
    [sextet (a >>> 2), sextet ((a &&& 3) <<< 4 ||| b >>> 4), sextet ((b &&& 15) <<< 2 ||| d >>> 6),
      sextet (d &&& 63)] ++ base64 rest
  | [a, b] => [sextet (a >>> 2), sextet ((a &&& 3) <<< 4 ||| b >>> 4), sextet ((b &&& 15) <<< 2), '=']
  | [a] => [sextet (a >>> 2), sextet ((a &&& 3) <<< 4), '=', '=']
  | [] => []
where
  sextet (b : UInt8) : Char := base64Chars.getD b.toNat '='

theorem mem_base64 (input : Bytes) : ∀ ch ∈ base64 input, 32 < ch.toNat ∧ ch.toNat < 128 := by
  have hsextet : ∀ b, 32 < (base64.sextet b).toNat ∧ (base64.sextet b).toNat < 128 := fun b =>
    visible_getD (by decide) b.toNat
  fun_induction base64 input with
  | case1 a b d rest ih =>
    simp only [List.cons_append, List.nil_append, List.forall_mem_cons]
    exact ⟨hsextet _, hsextet _, hsextet _, hsextet _, ih⟩
  | case2 a b => simp [hsextet]
  | case3 a => simp [hsextet]
  | case4 => simp

theorem word_base64 (input : Bytes) : Word (utf8 (String.ofList (base64 input))) := by
  refine word_utf8 fun ch hch => mem_base64 input ch ?_
  rwa [String.toList_ofList] at hch

/-- The digests of an account's messages. -/
def digest (size : ℕ) (known : List (Bytes × ℕ)) (input : Bytes) : Bytes :=
  WsFrames.bytes size ((known.lookup input).getD 0)

/-- OpenSSL, as far as this account uses it. -/
def openssl : Crypto where
  hmac_sha256 _ := digest 32
    [(utf8 "phrase", 0x23c68e576a4595514a68fe1257b35c0ff96f4e022b8f37c8313b4fb6d5c836bd),
      (utf8 "1700000000GET/api/v1/accounts?type=trade",
        0xc357b276a3f8665deb13605aaba6698b7cce80a7ad2e3c3bc7ade2a7f4e3bc05),
      (utf8 "type=trade&recvWindow=60000&timestamp=1700000000",
        0x28d8e3c3ce8ceb94e214d939d4d2fcd3e954de9c2e5edd5724e07a826025ab48)]
  hmac_sha512 _ := digest 64
    [(utf8 "GET\n/api/v1/accounts\ntype=trade\n" ++
        utf8 "cf83e1357eefb8bdf1542850d66d8007d620e4050b5715dc83f4a921d36ce9ce" ++
        utf8 "47d0d13c5d85f2b0ff8318d2877eec2f63b931bd47417a81a538327af927da3e" ++
        utf8 "\n1700000000",
      0x1a64e1a7c7efc59231dd3d0ec95122c37a83cc3b7e8e655b1906cd11649824ca * 2 ^ 256 +
        0xeadd6c850503c329e8afdc5cbbc3e941d6d40cb5e5c2fc333ec2280ab3e80e3c),
      (utf8 "/0/private/Balance" ++ WsFrames.bytes 32
          0x76c4e94bdf5a20d3d6d4eb0b31f05be645063c8e9f9472e8db51c4d0be4e5f03,
        0xaee9f334bbaac8396d10794eef542e061e2b0247244ee7157c41d4ea9a3ccbcf * 2 ^ 256 +
          0x18eda3737beb9cd434b63fdde3f6fcbcd1d409b4ca195228aa1af95ad02af0b1)]
  sha256 := digest 32 [(utf8 "1700000000nonce=1700000000",
    0x76c4e94bdf5a20d3d6d4eb0b31f05be645063c8e9f9472e8db51c4d0be4e5f03)]
  sha512 := digest 64 [([],
    0xcf83e1357eefb8bdf1542850d66d8007d620e4050b5715dc83f4a921d36ce9ce * 2 ^ 256 +
      0x47d0d13c5d85f2b0ff8318d2877eec2f63b931bd47417a81a538327af927da3e)]
  base64_encode b := String.ofList (base64 b)
  base64_decode s := if s = "c2VjcmV0" then utf8 "secret" else []
  base64_word := word_base64
  sha256_length _ := WsFrames.length_bytes _ _

def account : Credentials := { api_key := "alkimi", api_secret := "c2VjcmV0", passphrase := "phrase" }

/-- A request for the balances at each exchange. -/
theorem calls_accepted_account :
    (Accepted (kucoin_accepts openssl account) "host"
        (kucoin_call openssl account 1700000000 "GET" "/api/v1/accounts" "type=trade" "") ∧
      Accepted (gate_accepts openssl account) "host"
        (gate_call openssl account 1700000000 "GET" "/api/v1/accounts" "type=trade" "") ∧
      Accepted (mexc_accepts openssl account) "host"
        (mexc_call openssl account 1700000000 "GET" "/api/v1/accounts" "type=trade")) ∧
    Accepted (kraken_accepts openssl account) "host"
      (kraken_call openssl account 1700000000 "/0/private/Balance" "") :=
  ⟨(calls_accepted openssl account "host" 1700000000).1 "GET" "/api/v1/accounts" "type=trade" ""
      ⟨by decide, by decide, by decide, by decide, by decide, by decide⟩,
    (calls_accepted openssl account "host" 1700000000).2 "/0/private/Balance" ""
      ⟨by decide, by decide, by decide, by decide, by decide, by decide⟩⟩

/-! ## What is signed -/

section Splits

variable {α : Type} {p : α → Bool} {l l' r r' : List α}

theorem takeWhile_split (hl : ∀ a ∈ l, p a = true) (hr : ∀ a ∈ r.head?, p a = false) :
    (l ++ r).takeWhile p = l := by
  rw [List.takeWhile_append_of_pos hl]
  cases r with
  | nil => simp
  | cons a r => simp [hr a rfl]

/-- What `p` tells apart is read off the whole. -/
theorem append_split (hl : ∀ a ∈ l, p a = true) (hl' : ∀ a ∈ l', p a = true)
    (hr : ∀ a ∈ r.head?, p a = false) (hr' : ∀ a ∈ r'.head?, p a = false)
    (h : l ++ r = l' ++ r') : l = l' ∧ r = r' := by
  have hsame : l = l' := by rw [← takeWhile_split hl hr, h, takeWhile_split hl' hr']
  subst hsame
  exact ⟨rfl, List.append_cancel_left h⟩

theorem bne_of_not_mem [DecidableEq α] {x : α} (h : x ∉ l) : ∀ a ∈ l, (a != x) = true :=
  fun _ ha => bne_iff_ne.mpr fun he => h (he ▸ ha)

/-- What a separator that is not in it ends is read off the whole. -/
theorem cons_split [DecidableEq α] {x : α} (hl : x ∉ l) (hl' : x ∉ l')
    (h : l ++ x :: r = l' ++ x :: r') : l = l' ∧ r = r' := by
  obtain ⟨hsame, hrest⟩ := append_split (bne_of_not_mem hl) (bne_of_not_mem hl') (by simp) (by simp) h
  exact ⟨hsame, (List.cons.inj hrest).2⟩

end Splits

/-- The methods of the calls. -/
def methods : List String := ["GET", "POST", "DELETE"]

theorem no_slash {m : String} (h : m ∈ methods) : ∀ ch ∈ m.toList, (ch != '/') = true := by
  have hall : ∀ m ∈ methods, m.toList.all (· != '/') = true := by decide
  exact List.all_eq_true.mp (hall m h)

/-- A method begins with a capital letter. -/
theorem method_head {m : String} (h : m ∈ methods) :
    ∃ ch l, m.toList = ch :: l ∧ ch.isUpper = true ∧ ch.isDigit = false := by
  revert m
  simp only [methods, List.forall_mem_cons]
  exact ⟨⟨'G', ['E', 'T'], rfl, rfl, rfl⟩, ⟨'P', ['O', 'S', 'T'], rfl, rfl, rfl⟩,
    ⟨'D', ['E', 'L', 'E', 'T', 'E'], rfl, rfl, rfl⟩, by simp⟩

theorem no_digit {m : String} {rest : List Char} (h : m ∈ methods) :
    ∀ ch ∈ (m.toList ++ rest).head?, ch.isDigit = false := by
  obtain ⟨ch, l, hl, -, hch⟩ := method_head h
  rw [hl]
  intro x hx
  obtain rfl := Option.some.inj hx
  exact hch

/-- A target that begins with a slash, and a body that is empty or begins with a brace, as the target
does not. -/
structure Braced (target body : String) : Prop where
  slash : target.toList.head? = some '/'
  target : '{' ∉ target.toList
  body : ∀ ch ∈ body.toList.head?, ch = '{'

theorem toList_toString_inj {n n' : ℕ} (h : (toString n).toList = (toString n').toList) : n = n' := by
  have hdigits : Nat.toDigits 10 n = Nat.toDigits 10 n' :=
    Nat.toList_repr.symm.trans (h.trans Nat.toList_repr)
  rw [← Nat.ofDigitChars_ten_toDigits (n := n), hdigits, Nat.ofDigitChars_ten_toDigits]

/-- **KuCoin**: what is signed says when, what, where and with which body. -/
theorem kucoin_str_to_sign_inj {now now' : ℕ} {method method' target target' body body' : String}
    (hm : method ∈ methods) (hm' : method' ∈ methods) (hb : Braced target body)
    (hb' : Braced target' body')
    (h : kucoin_str_to_sign (toString now) method target body =
      kucoin_str_to_sign (toString now') method' target' body') :
    now = now' ∧ method = method' ∧ target = target' ∧ body = body' := by
  have hlist := congrArg String.toList h
  simp only [kucoin_str_to_sign, String.toList_append, List.append_assoc] at hlist
  obtain ⟨hnow, hlist⟩ := append_split (isDigit_toString now)
    (isDigit_toString now') (no_digit hm) (no_digit hm') hlist
  obtain ⟨hmethod, hlist⟩ := append_split (no_slash hm) (no_slash hm')
    (by simp [List.head?_append, hb.slash]) (by simp [List.head?_append, hb'.slash]) hlist
  obtain ⟨htarget, hbody⟩ := append_split (bne_of_not_mem hb.target)
    (bne_of_not_mem hb'.target) (fun ch hch => by simp [hb.body ch hch])
    (fun ch hch => by simp [hb'.body ch hch]) hlist
  exact ⟨toList_toString_inj hnow, String.toList_inj.mp hmethod, String.toList_inj.mp htarget,
    String.toList_inj.mp hbody⟩

theorem toList_mexc_query (now : ℕ) (query : String) : (mexc_query now query).toList =
    (if query = "" then [] else query.toList ++ ['&']) ++ ("recvWindow=60000&timestamp=".toList ++
      (toString now).toList) := by
  unfold mexc_query
  split
  · rw [String.toList_append, List.nil_append]
  · rw [String.toList_append, String.toList_append, List.append_assoc, List.append_assoc]
    rfl

/-- **MEXC**: what is signed says when and with which query, but not what or where. -/
theorem mexc_query_inj {now now' : ℕ} {query query' : String}
    (h : mexc_query now query = mexc_query now' query') : now = now' ∧ query = query' := by
  have hlist := congrArg (fun s => s.toList.reverse) h
  simp only [toList_mexc_query, List.reverse_append, List.append_assoc] at hlist
  have hdigits : ∀ n : ℕ, ∀ ch ∈ (toString n).toList.reverse, ch.isDigit = true := fun n ch hch =>
    isDigit_toString n ch (List.mem_reverse.mp hch)
  have hequals : ∀ l : List Char, ∀ ch ∈ ("recvWindow=60000&timestamp=".toList.reverse ++ l).head?,
      ch.isDigit = false := by
    intro l ch hch
    obtain rfl := Option.some.inj hch
    rfl
  obtain ⟨hnow, hrest⟩ := append_split (hdigits now) (hdigits now') (hequals _) (hequals _) hlist
  have hquery := List.reverse_injective (List.append_cancel_left hrest)
  refine ⟨toList_toString_inj (List.reverse_injective hnow), ?_⟩
  split at hquery <;> split at hquery
  · rename_i h1 h2
    rw [h1, h2]
  · exact absurd hquery (by simp)
  · exact absurd hquery (by simp)
  · exact String.toList_inj.mp (List.append_cancel_right hquery)

/-- The digits of a byte are read back. -/
theorem hex_byte_inj {a b : UInt8}
    (hhi : kHexChars.getD (a >>> 4).toNat '0' = kHexChars.getD (b >>> 4).toNat '0')
    (hlo : kHexChars.getD (a &&& 0x0f).toNat '0' = kHexChars.getD (b &&& 0x0f).toNat '0') : a = b := by
  have hread : ∀ n < 256, kHexChars.idxOf (kHexChars.getD (UInt8.ofNat n >>> 4).toNat '0') * 16 +
      kHexChars.idxOf (kHexChars.getD (UInt8.ofNat n &&& 0x0f).toNat '0') = n := by
    decide +kernel
  have hbyte : ∀ b : UInt8, kHexChars.idxOf (kHexChars.getD (b >>> 4).toNat '0') * 16 +
      kHexChars.idxOf (kHexChars.getD (b &&& 0x0f).toNat '0') = b.toNat := fun b => by
    have hb := hread b.toNat b.toNat_lt
    rwa [UInt8.ofNat_toNat] at hb
  refine UInt8.toNat_inj.mp ?_
  rw [← hbyte a, ← hbyte b, hhi, hlo]

theorem hex_encode_inj {l l' : Bytes} (h : hex_encode l = hex_encode l') : l = l' := by
  have hlist := congrArg String.toList h
  simp only [hex_encode, String.toList_ofList] at hlist
  clear h
  induction l generalizing l' with
  | nil =>
    cases l' with
    | nil => rfl
    | cons b l' => exact absurd hlist (by simp)
  | cons a l ih =>
    cases l' with
    | nil => exact absurd hlist (by simp)
    | cons b l' =>
      simp only [List.flatMap_cons, List.cons_append, List.nil_append, List.cons.injEq] at hlist
      obtain ⟨hhi, hlo, hrest⟩ := hlist
      rw [hex_byte_inj hhi hlo, ih hrest]

/-- What a Gate.io key signs: a call, a subscription, a login. -/
inductive GateSigned (β : Type) where
  | rest (method path query : String) (body : β)
  | subscribe (channel : String)
  | login

namespace GateSigned

/-- The message, signed at `ts`. -/
def message (c : Crypto) (ts : ℕ) : GateSigned String → String
  | rest method path query body => gate_str_to_sign c method path query (toString ts) body
  | subscribe channel => gate_ws_message channel ts
  | login => gate_login_message ts

/-- With the hash of its body. -/
def hashed (c : Crypto) : GateSigned String → GateSigned Bytes
  | rest method path query body => rest method path query (c.sha512 (utf8 body))
  | subscribe channel => subscribe channel
  | login => login

/-- No field reaches into the next. -/
def Delimited : GateSigned String → Prop
  | rest method path query _ => method ∈ methods ∧ '\n' ∉ path.toList ∧ '\n' ∉ query.toList
  | subscribe channel => '&' ∉ channel.toList
  | login => True

variable {s s' : GateSigned String} {ts ts' : ℕ}

theorem no_newline_method {m : String} (h : m ∈ methods) : '\n' ∉ m.toList := by
  revert m
  decide

theorem no_newline_hex (l : Bytes) : '\n' ∉ (hex_encode l).toList := fun h =>
  absurd (mem_hex_encode h).1 (by decide)

theorem rest_inj {method method' path path' query query' body body' : String}
    (h : (rest method path query body).Delimited) (h' : (rest method' path' query' body').Delimited)
    (heq : (rest method path query body).message c ts =
      (rest method' path' query' body').message c ts') :
    ts = ts' ∧ (rest method path query body).hashed c = (rest method' path' query' body').hashed c := by
  have hnl : "\n".toList = ['\n'] := rfl
  have hlist := congrArg String.toList heq
  simp only [message, gate_str_to_sign, String.toList_append, hnl, List.append_assoc,
    List.singleton_append] at hlist
  obtain ⟨hmethod, hlist⟩ := cons_split (no_newline_method h.1) (no_newline_method h'.1) hlist
  obtain ⟨hpath, hlist⟩ := cons_split h.2.1 h'.2.1 hlist
  obtain ⟨hquery, hlist⟩ := cons_split h.2.2 h'.2.2 hlist
  obtain ⟨hbody, hts⟩ := cons_split (no_newline_hex _) (no_newline_hex _) hlist
  refine ⟨toList_toString_inj hts, ?_⟩
  rw [hashed, hashed, String.toList_inj.mp hmethod, String.toList_inj.mp hpath,
    String.toList_inj.mp hquery, hex_encode_inj (String.toList_inj.mp hbody)]

theorem subscribe_inj {channel channel' : String} (h : (subscribe channel).Delimited)
    (h' : (subscribe channel').Delimited)
    (heq : (subscribe channel).message c ts = (subscribe channel').message c ts') :
    ts = ts' ∧ (subscribe channel).hashed c = (subscribe channel').hashed c := by
  have hevent : "&event=subscribe".toList = '&' :: "event=subscribe".toList := rfl
  have hlist := congrArg String.toList heq
  simp only [message, gate_ws_message, String.toList_append, hevent, List.append_assoc,
    List.cons_append] at hlist
  obtain ⟨hchannel, hlist⟩ := cons_split h h' (List.append_cancel_left hlist)
  have hts := List.append_cancel_left (List.append_cancel_left hlist)
  refine ⟨toList_toString_inj hts, ?_⟩
  rw [hashed, hashed, String.toList_inj.mp hchannel]

theorem login_inj (heq : login.message c ts = login.message c ts') : ts = ts' := by
  have hlist := congrArg String.toList heq
  unfold message gate_login_message at hlist
  rw [String.toList_append, String.toList_append] at hlist
  exact toList_toString_inj (List.append_cancel_left hlist)

/-- The kind of a message is read off its first letter. -/
def Begins : GateSigned String → Char → Prop
  | rest .., ch => ch.isUpper = true
  | subscribe _, ch => ch = 'c'
  | login, ch => ch = 'a'

theorem head_message (c : Crypto) (ts : ℕ) (h : s.Delimited) :
    ∃ ch l, (s.message c ts).toList = ch :: l ∧ s.Begins ch := by
  cases s with
  | rest method path query body =>
    obtain ⟨ch, l, hl, hupper, -⟩ := method_head h.1
    simp only [message, gate_str_to_sign, String.toList_append, hl, List.cons_append]
    exact ⟨ch, _, rfl, hupper⟩
  | subscribe channel =>
    simp only [message, gate_ws_message, String.toList_append]
    exact ⟨'c', _, rfl, rfl⟩
  | login =>
    unfold message gate_login_message
    rw [String.toList_append]
    exact ⟨'a', _, rfl, rfl⟩

/-- **Gate.io**: what is signed says what it is for, when, and what it asks. -/
theorem message_inj (h : s.Delimited) (h' : s'.Delimited)
    (heq : s.message c ts = s'.message c ts') : ts = ts' ∧ s.hashed c = s'.hashed c := by
  obtain ⟨ch, l, hl, hch⟩ := head_message c ts h
  obtain ⟨ch', l', hl', hch'⟩ := head_message c ts' h'
  obtain rfl : ch = ch' := (List.cons.inj (hl.symm.trans ((congrArg String.toList heq).trans hl'))).1
  have hc : ¬ 'c'.isUpper = true := by decide
  have ha : ¬ 'a'.isUpper = true := by decide
  have hne : 'a' ≠ 'c' := by decide
  cases s with
  | rest method path query body =>
    cases s' with
    | rest method' path' query' body' => exact rest_inj h h' heq
    | subscribe channel' =>
      obtain rfl := hch'
      exact absurd hch hc
    | login =>
      obtain rfl := hch'
      exact absurd hch ha
  | subscribe channel =>
    obtain rfl := hch
    cases s' with
    | rest method' path' query' body' => exact absurd hch' hc
    | subscribe channel' => exact subscribe_inj h h' heq
    | login => exact absurd (Eq.symm hch') hne
  | login =>
    obtain rfl := hch
    cases s' with
    | rest method' path' query' body' => exact absurd hch' ha
    | subscribe channel' => exact absurd hch' hne
    | login => exact ⟨login_inj heq, rfl⟩

/-- The body enters by its hash alone. -/
theorem message_congr (h : s.hashed c = s'.hashed c) : s.message c ts = s'.message c ts := by
  cases s <;> cases s' <;> simp only [hashed, rest.injEq, subscribe.injEq, reduceCtorEq] at h
  · obtain ⟨rfl, rfl, rfl, hbody⟩ := h
    simp only [message, gate_str_to_sign, hbody]
  · rw [h]
  · rfl

end GateSigned

/-- What Kraken hashes. -/
def kraken_input (now : ℕ) (extra_body : String) : String :=
  toString now ++ kraken_body (toString now) extra_body

theorem kraken_input_inj {now now' : ℕ} {extra extra' : String}
    (h : kraken_input now extra = kraken_input now' extra') : now = now' ∧ extra = extra' := by
  have hlist := congrArg String.toList h
  have hbody : ∀ nonce extra : String, (kraken_body nonce extra).toList =
      "nonce=".toList ++ (nonce.toList ++ if extra = "" then [] else '&' :: extra.toList) := by
    intro nonce extra
    unfold kraken_body
    split
    · rw [String.toList_append, List.append_nil]
    · rw [String.toList_append, String.toList_append, String.toList_append, List.append_assoc,
        List.append_assoc]
      rfl
  simp only [kraken_input, String.toList_append, hbody] at hlist
  obtain ⟨hnow, hlist⟩ := append_split (isDigit_toString now)
    (isDigit_toString now') (fun ch hch => by obtain rfl := Option.some.inj hch; rfl)
    (fun ch hch => by obtain rfl := Option.some.inj hch; rfl) hlist
  obtain rfl := toList_toString_inj hnow
  have hrest := List.append_cancel_left (List.append_cancel_left hlist)
  refine ⟨rfl, ?_⟩
  split at hrest <;> split at hrest
  · rename_i h1 h2
    rw [h1, h2]
  · exact absurd hrest (by simp)
  · exact absurd hrest (by simp)
  · exact String.toList_inj.mp (List.cons.inj hrest).2

/-- **Kraken**: what is signed says where, when and with which parameters, unless two inputs collide. -/
theorem kraken_message_inj {now now' : ℕ} {path path' extra extra' : String}
    (h : kraken_message c path (toString now) (kraken_body (toString now) extra) =
      kraken_message c path' (toString now') (kraken_body (toString now') extra')) :
    path = path' ∧ (now = now' ∧ extra = extra' ∨ kraken_input now extra ≠ kraken_input now' extra' ∧
      c.sha256 (utf8 (kraken_input now extra)) = c.sha256 (utf8 (kraken_input now' extra'))) := by
  have hlength : ∀ b b', (c.sha256 b).length = (c.sha256 b').length := fun b b' => by
    rw [c.sha256_length, c.sha256_length]
  obtain ⟨hpath, hhash⟩ := List.append_inj' h (hlength _ _)
  refine ⟨utf8_inj hpath, ?_⟩
  by_cases hsame : kraken_input now extra = kraken_input now' extra'
  · exact .inl (kraken_input_inj hsame)
  · exact .inr ⟨hsame, hhash⟩

/-- **What a key signs**: at KuCoin and Gate.io a signature is for one call, at Kraken for one unless two
inputs collide; at MEXC it is for one query at one time, but for any path and any method. -/
theorem signed_iff (c : Crypto) :
    (∀ {now now' : ℕ} {method method' target target' body body' : String}, method ∈ methods →
      method' ∈ methods → Braced target body → Braced target' body' →
      (kucoin_str_to_sign (toString now) method target body =
          kucoin_str_to_sign (toString now') method' target' body' ↔
        now = now' ∧ method = method' ∧ target = target' ∧ body = body')) ∧
    (∀ {ts ts' : ℕ} {s s' : GateSigned String}, s.Delimited → s'.Delimited →
      (s.message c ts = s'.message c ts' ↔ ts = ts' ∧ s.hashed c = s'.hashed c)) ∧
    (∀ {now now' : ℕ} {query query' : String},
      mexc_query now query = mexc_query now' query' ↔ now = now' ∧ query = query') ∧
    ∀ {now now' : ℕ} {path path' extra extra' : String},
      kraken_message c path (toString now) (kraken_body (toString now) extra) =
          kraken_message c path' (toString now') (kraken_body (toString now') extra') ↔
        path = path' ∧ (now = now' ∧ extra = extra' ∨
          kraken_input now extra ≠ kraken_input now' extra' ∧
            c.sha256 (utf8 (kraken_input now extra)) = c.sha256 (utf8 (kraken_input now' extra'))) := by
  refine ⟨fun hm hm' hb hb' => ⟨kucoin_str_to_sign_inj hm hm' hb hb', ?_⟩,
    fun h h' => ⟨GateSigned.message_inj h h', ?_⟩, ⟨mexc_query_inj, ?_⟩, ⟨kraken_message_inj, ?_⟩⟩
  · rintro ⟨rfl, rfl, rfl, rfl⟩
    rfl
  · rintro ⟨rfl, hhashed⟩
    exact GateSigned.message_congr hhashed
  · rintro ⟨rfl, rfl⟩
    rfl
  · rintro ⟨rfl, ⟨rfl, rfl⟩ | ⟨-, hhash⟩⟩
    · rfl
    · exact congrArg (utf8 _ ++ ·) hhash

/-- A balance asked for and an order deleted; a channel subscribed to and a login. -/
theorem signed_iff_account :
    kucoin_str_to_sign (toString 1700000000) "GET" "/api/v1/accounts?type=trade" "" ≠
      kucoin_str_to_sign (toString 1700000000) "DELETE" "/api/v1/orders/1" "" ∧
    (GateSigned.subscribe "spot.orders").message openssl 1700000000 ≠
      GateSigned.login.message openssl 1700000000 := by
  have hget : Braced "/api/v1/accounts?type=trade" "" := ⟨rfl, by decide, by simp⟩
  have hdelete : Braced "/api/v1/orders/1" "" := ⟨rfl, by decide, by simp⟩
  have hchannel : (GateSigned.subscribe "spot.orders").Delimited :=
    (by decide : '&' ∉ "spot.orders".toList)
  refine ⟨fun h => ?_, fun h => ?_⟩
  · have hcall := ((signed_iff openssl).1 (by decide) (by decide) hget hdelete).mp h
    exact absurd hcall.2.1 (by decide)
  · have hlogin : GateSigned.login.Delimited := trivial
    have hsame := ((signed_iff openssl).2.1 hchannel hlogin).mp h
    exact nomatch hsame.2

end Meridian.Signing
