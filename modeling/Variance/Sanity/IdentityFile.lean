import Variance.Spec.IdentityFile

/-! What a saved identity file opens with, and that a file whose write was cut does not open. -/

namespace Variance

theorem mapError_eq_ok_iff {α ε ε' : Type} {f : ε → ε'} {x : Except ε α} {a : α} :
    x.mapError f = .ok a ↔ x = .ok a := by
  cases x <;> simp [Except.mapError]

theorem utf8Bytes_empty : utf8Bytes "" = [] := by
  rw [utf8Bytes_eq]
  rfl

namespace IdentityCrypto
variable {C : IdentityCrypto} {draw : SealDraw} {bytes c : Bytes} {identity identity' : IdentityFile} {s pp q : String}
  {passphrase : Option String} {n : ℕ}

theorem isEncrypted_header : isEncrypted (header draw ++ c) = true := rfl

theorem head_of_isEncrypted (h : isEncrypted bytes = true) : bytes.head? = magic.head? := by
  obtain ⟨rest, rfl⟩ := List.isPrefixOf_iff_prefix.1 h
  rfl

theorem decryptBody_cons : C.decryptBody q (UInt8.ofNat (utf8Bytes draw.salt).length :: (utf8Bytes draw.salt ++ c)) =
    if c.length < 12 then .error "Truncated encrypted file (nonce)"
    else C.decryptWith q (utf8Bytes draw.salt) (c.take 12) (c.drop 12) := by
  have hlen : (UInt8.ofNat (utf8Bytes draw.salt).length).toNat = (utf8Bytes draw.salt).length :=
    UInt8.toNat_ofNat_of_lt draw.salt_length
  unfold decryptBody
  dsimp only
  rw [hlen, if_neg (by simp)]
  simp only [List.drop_left, List.take_left]

theorem decrypt_cons {rest : Bytes} : C.decrypt (magic ++ cryptoVersion :: rest) q = C.decryptBody q rest := rfl

theorem header_append : header draw ++ c = magic ++ cryptoVersion ::
    UInt8.ofNat (utf8Bytes draw.salt).length :: (utf8Bytes draw.salt ++ (draw.nonce ++ c)) := by
  simp [header]

theorem decrypt_header : C.decrypt (header draw ++ c) q = C.decryptWith q (utf8Bytes draw.salt) draw.nonce c := by
  have hnonce := draw.nonce_length
  rw [header_append, decrypt_cons, decryptBody_cons, if_neg (by simp [hnonce]), ← hnonce]
  simp only [List.drop_left, List.take_left]

/-- A file that was cut within its header does not open. -/
theorem decrypt_header_cut (hn : n < (header draw).length) : C.decrypt ((header draw ++ c).take n) q ≠ .ok s := by
  have hnonce := draw.nonce_length
  have hheader : (header draw).length = (utf8Bytes draw.salt).length + 18 := by
    simp [header, magic, hnonce]
  have hlen : (UInt8.ofNat (utf8Bytes draw.salt).length).toNat = (utf8Bytes draw.salt).length :=
    UInt8.toNat_ofNat_of_lt draw.salt_length
  rw [header_append]
  intro h
  match n, hn, h with
  | 0, _, h | 1, _, h | 2, _, h | 3, _, h | 4, _, h | 5, _, h => cases h
  | m + 6, hn, h =>
    have htake : (magic ++ cryptoVersion :: UInt8.ofNat (utf8Bytes draw.salt).length ::
        (utf8Bytes draw.salt ++ (draw.nonce ++ c))).take (m + 6) = magic ++ cryptoVersion ::
          UInt8.ofNat (utf8Bytes draw.salt).length :: (utf8Bytes draw.salt ++ (draw.nonce ++ c)).take m := rfl
    rw [htake, decrypt_cons] at h
    by_cases hm : m < (utf8Bytes draw.salt).length
    · unfold decryptBody at h
      dsimp only at h
      rw [hlen, if_pos (by rw [List.length_take]; omega)] at h
      cases h
    · rw [List.take_append, List.take_of_length_le (not_lt.1 hm), decryptBody_cons,
        if_pos (by rw [List.length_take]; omega)] at h
      cases h

/-- Of a file that was cut, what opens has the whole header. -/
theorem decrypt_cut (h : C.decrypt ((header draw ++ c).take n) q = .ok s) :
    C.decryptWith q (utf8Bytes draw.salt) draw.nonce (c.take (n - (header draw).length)) = .ok s := by
  by_cases hn : n < (header draw).length
  · exact (decrypt_header_cut hn h).elim
  · rw [List.take_append, List.take_of_length_le (not_lt.1 hn), decrypt_header] at h
    exact h

/-! Opening -/

theorem encrypt_ok (h : C.encrypt draw s pp = .ok bytes) : ∃ key c, C.hashPassword (utf8Bytes pp) (utf8Bytes draw.salt) =
    .ok key ∧ C.gcmEncrypt key draw.nonce (utf8Bytes s) = .ok c ∧ bytes = header draw ++ c := by
  unfold encrypt at h
  split at h
  · cases h
  · rename_i key hkey
    split at h
    · cases h
    · rename_i c hc
      exact ⟨key, c, hkey, hc, (Except.ok.inj h).symm⟩

theorem encrypt_isEncrypted (h : C.encrypt draw s pp = .ok bytes) : isEncrypted bytes = true := by
  obtain ⟨_, _, -, -, rfl⟩ := encrypt_ok h
  exact isEncrypted_header

theorem decryptWith_ok {salt nonce : Bytes} (h : C.decryptWith q salt nonce c = .ok s) :
    ∃ key, C.hashPassword (utf8Bytes q) salt = .ok key ∧ C.gcmDecrypt key nonce c = some (utf8Bytes s) := by
  unfold decryptWith at h
  split at h
  · cases h
  · rename_i salt' hsalt
    rw [fromUtf8_iff.1 hsalt]
    split at h
    · cases h
    · rename_i key hkey
      split at h
      · cases h
      · rename_i text htext
        split at h
        · cases h
        · rename_i s' hs'
          obtain rfl := Except.ok.inj h
          exact ⟨key, hkey, by rw [htext, fromUtf8_iff.1 hs']⟩

theorem decrypt_encrypt (hC : C.Lawful) (h : C.encrypt draw s pp = .ok bytes) : C.decrypt bytes pp = .ok s := by
  obtain ⟨key, c, hkey, hc, rfl⟩ := encrypt_ok h
  rw [decrypt_header, decryptWith, fromUtf8_iff.2 rfl]
  dsimp only
  rw [hkey]
  dsimp only
  rw [hC.decrypts hkey hkey hc, if_pos rfl]
  dsimp only
  rw [fromUtf8_iff.2 rfl]

/-- Another passphrase does not open it. -/
theorem decrypt_encrypt_only (hC : C.Lawful) (h : C.encrypt draw s pp = .ok bytes) {s' : String}
    (hd : C.decrypt bytes q = .ok s') : q = pp := by
  obtain ⟨key, c, hkey, hc, rfl⟩ := encrypt_ok h
  rw [decrypt_header] at hd
  obtain ⟨key', hkey', htext⟩ := decryptWith_ok hd
  rw [hC.decrypts hkey hkey' hc] at htext
  by_contra hne
  rw [if_neg fun he => hne he.symm] at htext
  cases htext

theorem decrypt_encrypt_cut (hC : C.Lawful) (h : C.encrypt draw s pp = .ok bytes) (hn : n < bytes.length) {s' : String} :
    C.decrypt (bytes.take n) q ≠ .ok s' := by
  intro hd
  obtain ⟨key, c, hkey, hc, rfl⟩ := encrypt_ok h
  obtain ⟨key', -, htext⟩ := decryptWith_ok (decrypt_cut hd)
  by_cases hhead : n < (header draw).length
  · exact decrypt_header_cut hhead hd
  · have hne : c.take (n - (header draw).length) ≠ c := by
      intro he
      have hl := congrArg List.length he
      rw [List.length_take] at hl
      rw [List.length_append] at hn
      omega
    rw [hC.decrypts_cut hc (List.take_prefix _ _) hne] at htext
    cases htext

theorem json_not_isEncrypted (hC : C.Lawful) (h : C.fromStr s = .ok identity) : isEncrypted (utf8Bytes s) = false :=
  Bool.eq_false_iff.2 fun he => (hC.json h).2 (head_of_isEncrypted he)

theorem contents_of_plain (h : isEncrypted bytes = false) : C.contents bytes passphrase = .ok s ↔ bytes = utf8Bytes s := by
  rw [← fromUtf8_iff]
  unfold contents
  rw [if_neg (by simp [h])]
  cases fromUtf8 bytes <;> simp

theorem contents_of_encrypted (h : isEncrypted bytes = true) :
    C.contents bytes passphrase = .ok s ↔ ∃ pp, passphrase = some pp ∧ C.decrypt bytes pp = .ok s := by
  unfold contents
  rw [if_pos h]
  cases passphrase with
  | none => simp
  | some pp => simp [mapError_eq_ok_iff]

theorem readIdentity_of_contents (h : C.contents bytes passphrase = .ok s) (hs : C.fromStr s = .ok identity) :
    C.readIdentity (some bytes) passphrase = .ok identity := by
  unfold readIdentity
  dsimp only
  rw [h]
  dsimp only
  rw [hs]
  rfl

theorem contents_of_readIdentity (h : C.readIdentity (some bytes) passphrase = .ok identity) :
    ∃ s, C.contents bytes passphrase = .ok s ∧ C.fromStr s = .ok identity := by
  unfold readIdentity at h
  dsimp only at h
  split at h
  · cases h
  · rename_i s hs
    exact ⟨s, hs, mapError_eq_ok_iff.1 h⟩

/-- A file that is not encrypted does not ask for the passphrase. -/
theorem readIdentity_plain (h : isEncrypted bytes = false) (p q : Option String) :
    C.readIdentity (some bytes) p = C.readIdentity (some bytes) q := by
  have hsame : C.contents bytes p = C.contents bytes q := by
    unfold contents
    rw [h]
    rfl
  unfold readIdentity
  dsimp only
  rw [hsame]

/-- What `save_identity` writes is encrypted if there is a passphrase, and opens with that. -/
structure Sealed (C : IdentityCrypto) (bytes : Bytes) (identity : IdentityFile) (passphrase : Option String) : Prop where
  plain : isEncrypted bytes = false ↔ passphrase = none
  opens : C.readIdentity (some bytes) passphrase = .ok identity
  only {q : Option String} {identity' : IdentityFile} : C.readIdentity (some bytes) q = .ok identity' →
    passphrase = none ∨ q = passphrase

theorem sealed_of_saveBytes (hC : C.Lawful) (h : C.saveBytes draw identity passphrase = .ok bytes) :
    C.Sealed bytes identity passphrase := by
  have hjson := hC.fromStr_toStringPretty identity
  cases passphrase with
  | none =>
    obtain rfl := Except.ok.inj h
    have hplain := json_not_isEncrypted hC hjson
    exact ⟨iff_of_true hplain rfl, readIdentity_of_contents ((contents_of_plain hplain).2 rfl) hjson, fun _ => Or.inl rfl⟩
  | some pp =>
    have henc := mapError_eq_ok_iff.1 h
    have hmark := encrypt_isEncrypted henc
    refine ⟨iff_of_false (by simp [hmark]) (by simp), ?_, fun {q identity'} hq => Or.inr ?_⟩
    · exact readIdentity_of_contents ((contents_of_encrypted hmark).2 ⟨pp, rfl, decrypt_encrypt hC henc⟩) hjson
    · obtain ⟨s, hs, -⟩ := contents_of_readIdentity hq
      obtain ⟨q', rfl, hd⟩ := (contents_of_encrypted hmark).1 hs
      rw [decrypt_encrypt_only hC henc hd]

theorem saveBytes_cut (hC : C.Lawful) (h : C.saveBytes draw identity passphrase = .ok bytes) (hn : n < bytes.length)
    (q : Option String) : C.readIdentity (some (bytes.take n)) q ≠ .ok identity' := by
  intro hread
  obtain ⟨s, hs, hparse⟩ := contents_of_readIdentity hread
  by_cases hmark : isEncrypted (bytes.take n) = true
  · -- then the whole of it is encrypted
    obtain ⟨q', rfl, hd⟩ := (contents_of_encrypted hmark).1 hs
    cases passphrase with
    | none =>
      obtain rfl := Except.ok.inj h
      have hplain := json_not_isEncrypted hC (hC.fromStr_toStringPretty identity)
      have hmark' : isEncrypted (utf8Bytes (C.toStringPretty identity)) = true :=
        List.isPrefixOf_iff_prefix.2 ((List.isPrefixOf_iff_prefix.1 hmark).trans (List.take_prefix _ _))
      rw [hplain] at hmark'
      cases hmark'
    | some pp => exact decrypt_encrypt_cut hC (mapError_eq_ok_iff.1 h) hn hd
  · rw [contents_of_plain (Bool.eq_false_iff.2 hmark)] at hs
    cases passphrase with
    | none =>
      obtain rfl := Except.ok.inj h
      have hpre : utf8Bytes s <+: utf8Bytes (C.toStringPretty identity) := hs ▸ List.take_prefix _ _
      have hl := congrArg List.length hs
      rw [hC.json_cut hpre hparse, List.length_take] at hl
      omega
    | some pp =>
      -- less than the mark is left
      obtain ⟨hne, hhead⟩ := hC.json hparse
      have hmagic := head_of_isEncrypted (encrypt_isEncrypted (mapError_eq_ok_iff.1 h))
      cases n with
      | zero => exact hne (utf8Bytes_inj.1 (hs.symm.trans utf8Bytes_empty.symm))
      | succ n =>
        rw [← hs, List.head?_take, if_neg (Nat.succ_ne_zero n)] at hhead
        exact hhead hmagic

/-! Saving and loading -/

variable {env : SaveEnv} {file : Option Bytes}

theorem saveIdentity_completes (file : Option Bytes) (h : env.Completes C identity passphrase) :
    ∃ bytes, C.saveBytes env.draw identity passphrase = .ok bytes ∧
      C.saveIdentity env file identity passphrase = (.ok (), some bytes) := by
  obtain ⟨bytes, hb, hfate⟩ := h
  refine ⟨bytes, hb, ?_⟩
  unfold saveIdentity
  rw [hb]
  dsimp only
  cases hf : env.fate with
  | done => rfl
  | notOpened e =>
    rw [hf] at hfate
    exact hfate.elim
  | cutAt n e =>
    rw [hf] at hfate
    rw [fsWrite, if_pos (show bytes.length ≤ n from hfate)]
    rfl

theorem saveIdentity_cuts (file : Option Bytes) (h : env.Cuts C identity passphrase) :
    ∃ bytes n e, C.saveBytes env.draw identity passphrase = .ok bytes ∧ n < bytes.length ∧
      C.saveIdentity env file identity passphrase = (.error e, some (bytes.take n)) := by
  obtain ⟨bytes, hb, hfate⟩ := h
  cases hf : env.fate with
  | done =>
    rw [hf] at hfate
    exact hfate.elim
  | notOpened e =>
    rw [hf] at hfate
    exact hfate.elim
  | cutAt n e =>
    rw [hf] at hfate
    refine ⟨bytes, n, "Failed to write identity file: " ++ e, hb, hfate, ?_⟩
    unfold saveIdentity
    rw [hb]
    dsimp only
    rw [hf, fsWrite, if_neg (not_le.2 hfate)]
    rfl

theorem not_cuts (h : env.Completes C identity passphrase) : ¬ env.Cuts C identity passphrase := by
  rintro ⟨bytes', hb', hcut⟩
  obtain ⟨bytes, hb, hdone⟩ := h
  obtain rfl := Except.ok.inj (hb.symm.trans hb')
  cases hf : env.fate with
  | done => rw [hf] at hcut; exact hcut
  | notOpened e => rw [hf] at hcut; exact hcut
  | cutAt n e =>
    rw [hf] at hcut hdone
    exact absurd hcut (not_lt.2 hdone)

/-- A save that writes nothing. -/
theorem saveIdentity_refused (file : Option Bytes) (h : ¬ env.Completes C identity passphrase)
    (hc : ¬ env.Cuts C identity passphrase) :
    ∃ e, C.saveIdentity env file identity passphrase = (.error e, file) := by
  unfold saveIdentity
  cases hb : C.saveBytes env.draw identity passphrase with
  | error e => exact ⟨e, rfl⟩
  | ok bytes =>
    dsimp only
    cases hf : env.fate with
    | done => exact (h ⟨bytes, hb, by rw [hf]; trivial⟩).elim
    | notOpened e => exact ⟨_, rfl⟩
    | cutAt n e =>
      rcases le_or_gt bytes.length n with hn | hn
      · exact (h ⟨bytes, hb, by rw [hf]; exact hn⟩).elim
      · exact (hc ⟨bytes, hb, by rw [hf]; exact hn⟩).elim

theorem load_of_read {fresh : String} (h : C.readIdentity file passphrase = .ok identity)
    (hp : identity.olmAccountPickle ≠ "") :
    C.loadIdentityWithPassphrase env fresh file passphrase = (.ok identity, file) := by
  rw [loadIdentityWithPassphrase, h]
  exact if_neg hp

theorem load_error {fresh e : String} (h : C.readIdentity file passphrase = .error e) :
    C.loadIdentityWithPassphrase env fresh file passphrase = (.error e, file) := by
  rw [loadIdentityWithPassphrase, h]

end IdentityCrypto
end Variance
