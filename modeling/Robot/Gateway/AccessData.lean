import Robot.Lib.Int64
import Robot.Gateway.Codes

/-!
# The signed access text

`MakeAccessDataPlaintext` of `crypto_access.go` prints the numbers of an access entry and the hashes of
the public key and the session token into one text, which is then signed. Parts that are not there are
left out without a mark.

The text is a list of segments between colons, and no segment has a colon: numbers are digits, perhaps
after a minus sign, and hashes are hexadecimal digits. So the text determines the segments, and their
number, from three to six, says which parts are there. SHA-256 is a parameter.
-/

namespace Robot.Gateway

open Robot.Lib List
open Coded (toByte ofByte ofByte_toByte)

/-- `hex.EncodeToString`. -/
def hexEncode (data : Bytes) : List Char :=
  data.flatMap fun b => [Nat.digitChar (b.toNat / 16), Nat.digitChar (b.toNat % 16)]

/-- The arguments of `MakeAccessDataPlaintext`. -/
structure AccessInputs where
  sessionID : UInt64
  timestamp : Int64
  nonce1 : UInt64
  nonce2 : UInt64
  keyExchange : KeyExchange
  publicKey : Bytes
  sessionToken : Bytes

/-- `%d` of a `uint64`. -/
def formatUint (x : UInt64) : String := x.toNat.repr

def makeAccessDataPlaintext (sha256 : Bytes → Bytes) (a : AccessInputs) : String :=
  let plaintext := formatInt a.timestamp ++ ":" ++ formatUint a.nonce1 ++ "-" ++ formatUint a.nonce2 ++
    ":" ++ formatUint a.sessionID
  let plaintext :=
    if a.keyExchange ≠ .none then
      plaintext ++ ":" ++ (toByte a.keyExchange).toNat.repr ++ ":" ++
        String.ofList (hexEncode (sha256 a.publicKey))
    else plaintext
  if a.sessionToken.length > 0 then
    plaintext ++ ":" ++ String.ofList (hexEncode (sha256 a.sessionToken))
  else plaintext

/-! ## Digits -/

theorem formatUint_inj {x y : UInt64} (h : (formatUint x).toList = (formatUint y).toList) : x = y :=
  UInt64.toNat_inj.mp (natRepr_inj (String.toList_inj.mp h))

theorem digitChar_inj : ∀ m < 16, ∀ n < 16, Nat.digitChar m = Nat.digitChar n → m = n := by decide

theorem digitChar_ne_colon : ∀ n < 16, Nat.digitChar n ≠ ':' := by decide

theorem colon_not_mem_hexEncode (data : Bytes) : ':' ∉ hexEncode data := by
  intro h
  obtain ⟨b, -, hb⟩ := mem_flatMap.mp h
  have hlt := b.toNat_lt
  rcases mem_pair.mp hb with hc | hc
  · exact digitChar_ne_colon _ (by omega) hc.symm
  · exact digitChar_ne_colon _ (by omega) hc.symm

theorem hexEncode_inj : ∀ {a b : Bytes}, hexEncode a = hexEncode b → a = b := by
  intro a
  induction a with
  | nil =>
    intro b h
    cases b with
    | nil => rfl
    | cons y b => cases h
  | cons x a ih =>
    intro b h
    cases b with
    | nil => cases h
    | cons y b =>
      obtain ⟨hhigh, hrest⟩ := cons.inj h
      obtain ⟨hlow, hrest⟩ := cons.inj hrest
      have hx := x.toNat_lt
      have hy := y.toNat_lt
      have hdiv := digitChar_inj _ (by omega) _ (by omega) hhigh
      have hmod := digitChar_inj _ (by omega) _ (by omega) hlow
      rw [ih hrest, UInt8.toNat_inj.mp (show x.toNat = y.toNat by omega)]

/-! ## Segments -/

namespace AccessInputs

variable {sha256 : Bytes → Bytes} {a b : AccessInputs}

/-- The two nonces. -/
def nonces (a : AccessInputs) : List Char :=
  (formatUint a.nonce1).toList ++ '-' :: (formatUint a.nonce2).toList

def keyPart (sha256 : Bytes → Bytes) (a : AccessInputs) : List (List Char) :=
  if a.keyExchange ≠ .none then
    [(toByte a.keyExchange).toNat.repr.toList, hexEncode (sha256 a.publicKey)]
  else []

def tokenPart (sha256 : Bytes → Bytes) (a : AccessInputs) : List (List Char) :=
  if a.sessionToken.length > 0 then [hexEncode (sha256 a.sessionToken)] else []

/-- What stands between the colons. -/
def segments (sha256 : Bytes → Bytes) (a : AccessInputs) : List (List Char) :=
  [(formatInt a.timestamp).toList, a.nonces, (formatUint a.sessionID).toList] ++
    a.keyPart sha256 ++ a.tokenPart sha256

theorem toList_plaintext (sha256 : Bytes → Bytes) (a : AccessInputs) :
    (makeAccessDataPlaintext sha256 a).toList = [':'].intercalate (a.segments sha256) := by
  unfold makeAccessDataPlaintext segments keyPart tokenPart nonces
  by_cases hkey : a.keyExchange ≠ .none
  · by_cases htoken : a.sessionToken.length > 0
    · simp [if_pos hkey, if_pos htoken, intercalate]
    · simp [if_pos hkey, if_neg htoken, intercalate]
  · by_cases htoken : a.sessionToken.length > 0
    · simp [if_neg hkey, if_pos htoken, intercalate]
    · simp [if_neg hkey, if_neg htoken, intercalate]

theorem colon_not_mem_segments : ∀ l ∈ a.segments sha256, ':' ∉ l := by
  have hnonces : ':' ∉ a.nonces := by
    unfold nonces
    rw [mem_append, mem_cons, not_or, not_or]
    exact ⟨not_mem_natRepr rfl, by decide, not_mem_natRepr rfl⟩
  have hkey : ∀ l ∈ a.keyPart sha256, ':' ∉ l := by
    unfold keyPart
    split
    · intro l hl
      rcases mem_pair.mp hl with rfl | rfl
      · exact not_mem_natRepr rfl
      · exact colon_not_mem_hexEncode _
    · nofun
  have htoken : ∀ l ∈ a.tokenPart sha256, ':' ∉ l := by
    unfold tokenPart
    split
    · simp [colon_not_mem_hexEncode]
    · nofun
  intro l hl
  simp only [segments, mem_append, mem_cons, not_mem_nil, or_false] at hl
  rcases hl with ((rfl | rfl | rfl) | hl) | hl
  · exact colon_not_mem_formatInt _
  · exact hnonces
  · exact not_mem_natRepr rfl
  · exact hkey l hl
  · exact htoken l hl

theorem segments_eq (h : makeAccessDataPlaintext sha256 a = makeAccessDataPlaintext sha256 b) :
    a.segments sha256 = b.segments sha256 := by
  have hsplit (c : AccessInputs) :
      (makeAccessDataPlaintext sha256 c).toList.splitOn ':' = c.segments sha256 := by
    rw [toList_plaintext, splitOn_intercalate ':' colon_not_mem_segments (by simp [segments])]
  rw [← hsplit, ← hsplit, h]

theorem nonces_inj (h : a.nonces = b.nonces) : a.nonce1 = b.nonce1 ∧ a.nonce2 = b.nonce2 := by
  have hdash (x : UInt64) : '-' ∉ (formatUint x).toList := not_mem_natRepr rfl
  obtain ⟨h1, -, h2⟩ := (append_cons_inj_of_notMem (hdash _) (hdash _)).mp h
  exact ⟨formatUint_inj h1, formatUint_inj h2⟩

/-- The number of segments says which parts are there. -/
theorem parts_eq (h : a.keyPart sha256 ++ a.tokenPart sha256 = b.keyPart sha256 ++ b.tokenPart sha256) :
    a.keyPart sha256 = b.keyPart sha256 ∧ a.tokenPart sha256 = b.tokenPart sha256 := by
  have hlen := congrArg List.length h
  refine append_inj h ?_
  rw [length_append, length_append] at hlen
  unfold keyPart tokenPart at *
  split at hlen <;> split at hlen <;> split at hlen <;> split at hlen <;> simp_all

theorem keyPart_inj (hsha : sha256 a.publicKey = sha256 b.publicKey → a.publicKey = b.publicKey)
    (h : a.keyPart sha256 = b.keyPart sha256) :
    a.keyExchange = b.keyExchange ∧ (a.keyExchange ≠ .none → a.publicKey = b.publicKey) := by
  unfold keyPart at h
  split at h
  · split at h
    · obtain ⟨hcode, hrest⟩ := cons.inj h
      have hbyte := UInt8.toNat_inj.mp (natRepr_inj (String.toList_inj.mp hcode))
      refine ⟨?_, fun _ => hsha (hexEncode_inj (cons.inj hrest).1)⟩
      rw [← ofByte_toByte a.keyExchange, hbyte, ofByte_toByte]
    · cases h
  next ha =>
    split at h
    · cases h
    next hb => exact ⟨(not_not.mp ha).trans (not_not.mp hb).symm, fun hne => absurd hne ha⟩

theorem tokenPart_inj
    (hsha : sha256 a.sessionToken = sha256 b.sessionToken → a.sessionToken = b.sessionToken)
    (h : a.tokenPart sha256 = b.tokenPart sha256) : a.sessionToken = b.sessionToken := by
  unfold tokenPart at h
  split at h
  · split at h
    · exact hsha (hexEncode_inj (cons.inj h).1)
    · cases h
  next ha =>
    split at h
    · cases h
    next hb =>
      rw [length_eq_zero_iff.mp (Nat.eq_zero_of_not_pos ha),
        length_eq_zero_iff.mp (Nat.eq_zero_of_not_pos hb)]

/-- What the text binds. -/
structure Agree (a b : AccessInputs) : Prop where
  sessionID : a.sessionID = b.sessionID
  timestamp : a.timestamp = b.timestamp
  nonce1 : a.nonce1 = b.nonce1
  nonce2 : a.nonce2 = b.nonce2
  keyExchange : a.keyExchange = b.keyExchange
  publicKey : a.keyExchange ≠ .none → a.publicKey = b.publicKey
  sessionToken : a.sessionToken = b.sessionToken

/-- **The signed text binds its inputs**, if SHA-256 does not collide on them. -/
theorem plaintext_binds (sha256 : Bytes → Bytes) (a b : AccessInputs)
    (hsha : Set.InjOn sha256 {a.publicKey, b.publicKey, a.sessionToken, b.sessionToken})
    (h : makeAccessDataPlaintext sha256 a = makeAccessDataPlaintext sha256 b) : Agree a b := by
  have hsegments := segments_eq h
  unfold segments at hsegments
  rw [append_assoc, append_assoc] at hsegments
  obtain ⟨htime, hrest⟩ := cons.inj hsegments
  obtain ⟨hnonces, hrest⟩ := cons.inj hrest
  obtain ⟨hsession, hparts⟩ := cons.inj hrest
  obtain ⟨hkey, htoken⟩ := parts_eq hparts
  obtain ⟨hnonce1, hnonce2⟩ := nonces_inj hnonces
  obtain ⟨hexchange, hpublic⟩ := keyPart_inj (hsha (by simp) (by simp)) hkey
  exact ⟨formatUint_inj hsession, formatInt_inj (String.toList_inj.mp htime), hnonce1, hnonce2,
    hexchange, hpublic, tokenPart_inj (hsha (by simp) (by simp)) htoken⟩

/-- Without a key exchange, the public key is not in the text. -/
def withoutKey (publicKey : Bytes) : AccessInputs := ⟨7, -1, 2, 3, .none, publicKey, [5]⟩

theorem keys_not_bound : Agree (withoutKey [1]) (withoutKey [2]) :=
  plaintext_binds id _ _ (Set.injOn_id _) rfl

end AccessInputs

end Robot.Gateway
