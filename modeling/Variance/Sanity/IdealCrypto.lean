import Variance.Lib.Codec
import Variance.Sanity.IdentityFile

/-! An identity as text between braces, and an encryption that sends the key along: all that is asked of `serde_json`,
Argon2id and AES-256-GCM. -/

namespace Variance

namespace IdealCrypto

def u32 : Codec UInt32 := Codec.nat.map UInt32.toNat UInt32.ofNat fun b => by simp

def fileCodec : Codec IdentityFile :=
  (Codec.prod (.list .string) (.prod (.option .string) (.prod (.option u32) (.option .string)))).map
    (fun i => ([i.did, i.signingKey, i.verifyingKey, i.signalingKey, i.olmAccountPickle, i.createdAt],
      i.username, i.discriminator, i.ipnsKey))
    (fun p => match p.1 with
      | [did, signingKey, verifyingKey, signalingKey, olmAccountPickle, createdAt] =>
        ⟨did, signingKey, verifyingKey, signalingKey, olmAccountPickle, p.2.1, p.2.2.1, createdAt, p.2.2.2⟩
      | _ => ⟨"", "", "", "", "", none, none, "", none⟩)
    fun _ => rfl

def toStringPretty (i : IdentityFile) : String := "\x7b" ++ String.ofList (Text.hexChars (fileCodec.enc i)) ++ "\x7d"

def parse (s : String) : Option IdentityFile := (Text.unhexChars (s.toList.drop 1).dropLast).bind fileCodec.decode

def fromStr (s : String) : Except String IdentityFile :=
  match parse s with
  | some i => if toStringPretty i = s then .ok i else .error "trailing characters"
  | none => .error "expected value"

def keyed : Codec (Bytes × Bytes) := .prod (.list .byte) (.list .byte)

def gcmDecrypt (key c : Bytes) : Option Bytes :=
  match keyed.decode c with
  | some (k, text) => if k = key ∧ keyed.enc (k, text) = c then some text else none
  | none => none

end IdealCrypto

def idealCrypto : IdentityCrypto where
  toStringPretty := IdealCrypto.toStringPretty
  fromStr := IdealCrypto.fromStr
  hashPassword passphrase _ := .ok passphrase
  gcmEncrypt key _ text := .ok (IdealCrypto.keyed.enc (key, text))
  gcmDecrypt key _ c := IdealCrypto.gcmDecrypt key c
  utf8Error _ := "invalid utf-8 sequence"

namespace IdealCrypto

theorem fromStr_eq_ok {s : String} {i : IdentityFile} (h : fromStr s = .ok i) : s = toStringPretty i := by
  unfold fromStr at h
  split at h
  · split_ifs at h with hs
    obtain rfl := Except.ok.inj h
    exact hs.symm
  · cases h

theorem fromStr_toStringPretty (i : IdentityFile) : fromStr (toStringPretty i) = .ok i := by
  have hparse : parse (toStringPretty i) = some i := by
    have hlist : ((toStringPretty i).toList.drop 1).dropLast = Text.hexChars (fileCodec.enc i) := by
      simp [toStringPretty]
    rw [parse, hlist, Text.unhexChars_hexChars]
    exact fileCodec.decode_enc i
  rw [fromStr, hparse]
  exact if_pos rfl

theorem utf8Bytes_ofList (l : List Char) : utf8Bytes (String.ofList l) = l.flatMap String.utf8EncodeChar := by
  rw [utf8Bytes_eq, String.toByteArray_ofList, List.utf8Encode]
  simp

theorem utf8Bytes_toStringPretty (i : IdentityFile) : utf8Bytes (toStringPretty i) =
    0x7b :: (Text.hexChars (fileCodec.enc i)).flatMap String.utf8EncodeChar ++ [0x7d] := by
  have hopen : utf8Bytes "\x7b" = [0x7b] := utf8Bytes_ofList ['{']
  have hclose : utf8Bytes "\x7d" = [0x7d] := utf8Bytes_ofList ['}']
  rw [toStringPretty, utf8Bytes_append, utf8Bytes_append, hopen, hclose, utf8Bytes_ofList]
  rfl

/-- No digit is a closing brace. -/
theorem brace_notMem (b : Bytes) : (0x7d : UInt8) ∉ (Text.hexChars b).flatMap String.utf8EncodeChar := by
  have hdigit : ∀ n < 16, (0x7d : UInt8) ∉ String.utf8EncodeChar (Text.hexDigit n) := by decide
  intro hmem
  obtain ⟨c, hc, hbrace⟩ := List.mem_flatMap.1 hmem
  obtain ⟨x, -, hx⟩ := List.mem_flatMap.1 hc
  have hlt : x.toNat < 256 := x.toNat_lt
  rcases List.mem_cons.1 hx with rfl | hx
  · exact hdigit _ (by omega) hbrace
  · rw [List.mem_singleton.1 hx] at hbrace
    exact hdigit _ (by omega) hbrace

/-- A text ends where its brace is closed. -/
theorem eq_of_prefix {i j : IdentityFile} (h : utf8Bytes (toStringPretty i) <+: utf8Bytes (toStringPretty j)) :
    toStringPretty i = toStringPretty j := by
  rw [← utf8Bytes_inj, utf8Bytes_toStringPretty j]
  rw [utf8Bytes_toStringPretty j] at h
  rcases List.prefix_concat_iff.1 h with h | h
  · exact h
  · exfalso
    have hmem : (0x7d : UInt8) ∈ utf8Bytes (toStringPretty i) := by simp [utf8Bytes_toStringPretty]
    rcases List.mem_cons.1 (h.subset hmem) with hbrace | hbrace
    · exact absurd hbrace (by decide)
    · exact brace_notMem _ hbrace

theorem gcmDecrypt_eq_some {key c text : Bytes} (h : gcmDecrypt key c = some text) : keyed.enc (key, text) = c := by
  unfold gcmDecrypt at h
  split at h
  · rename_i k t hdec
    split_ifs at h with hc
    obtain rfl := Option.some.inj h
    rw [← hc.1]
    exact hc.2
  · cases h

theorem gcmDecrypt_enc (key key' text : Bytes) :
    gcmDecrypt key' (keyed.enc (key, text)) = if key = key' then some text else none := by
  rw [gcmDecrypt, keyed.decode_enc]
  simp

theorem json {s : String} {i : IdentityFile} (h : fromStr s = .ok i) : s ≠ "" ∧ (utf8Bytes s).head? ≠ magic.head? := by
  have hbytes := utf8Bytes_toStringPretty i
  rw [← fromStr_eq_ok h] at hbytes
  refine ⟨?_, ?_⟩
  · rintro rfl
    rw [utf8Bytes_empty] at hbytes
    cases hbytes
  · rw [hbytes]
    simp [magic]

theorem json_cut {i j : IdentityFile} {s : String} (hpre : utf8Bytes s <+: utf8Bytes (toStringPretty i))
    (h : fromStr s = .ok j) : s = toStringPretty i := by
  obtain rfl := fromStr_eq_ok h
  exact eq_of_prefix hpre

theorem decrypts_cut {text key key' c' : Bytes} (hpre : c' <+: keyed.enc (key, text)) (hne : c' ≠ keyed.enc (key, text)) :
    gcmDecrypt key' c' = none := by
  cases hd : gcmDecrypt key' c' with
  | none => rfl
  | some t =>
    have henc := gcmDecrypt_eq_some hd
    rw [← henc] at hpre hne
    rw [keyed.eq_of_prefix hpre] at hne
    exact (hne rfl).elim

end IdealCrypto

/-- ASCII's letters and digits. -/
def idealUnicode : Unicode := ⟨String.toLower, Char.isAlphanum⟩

theorem idealCrypto_fromStr : idealCrypto.fromStr = IdealCrypto.fromStr := rfl

theorem idealCrypto_toStringPretty : idealCrypto.toStringPretty = IdealCrypto.toStringPretty := rfl

theorem idealCrypto_lawful : idealCrypto.Lawful where
  fromStr_toStringPretty i := by
    rw [idealCrypto_fromStr, idealCrypto_toStringPretty]
    exact IdealCrypto.fromStr_toStringPretty i
  json h := by
    rw [idealCrypto_fromStr] at h
    exact IdealCrypto.json h
  json_cut hpre h := by
    rw [idealCrypto_fromStr] at h
    rw [idealCrypto_toStringPretty] at hpre ⊢
    exact IdealCrypto.json_cut hpre h
  decrypts {p q salt nonce text key key' c} hp hq hc := by
    have hkey : utf8Bytes p = key := Except.ok.inj hp
    have hkey' : utf8Bytes q = key' := Except.ok.inj hq
    have hc' : IdealCrypto.keyed.enc (key, text) = c := Except.ok.inj hc
    show IdealCrypto.gcmDecrypt key' c = _
    rw [← hc', IdealCrypto.gcmDecrypt_enc, ← hkey, ← hkey']
    simp only [utf8Bytes_inj]
  decrypts_cut {nonce text key key' c c'} hc hpre hne := by
    have hc' : IdealCrypto.keyed.enc (key, text) = c := Except.ok.inj hc
    rw [← hc'] at hpre hne
    exact IdealCrypto.decrypts_cut hpre hne

end Variance
