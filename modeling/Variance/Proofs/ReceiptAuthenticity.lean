import Variance.Sanity.Receipts
import Variance.Spec.Receipts

/-! A receipt changes what is known of a message as soon as it is stored: nothing on its way asks who signed it. -/

namespace Variance
namespace ReceiptNode
variable {E : Ed25519} {m : DirectMessage} {n : ReceiptNode} {f : Faults} {r : ReadReceipt} {rest : List ReadReceipt}

/-- A turn of the listener with something in the channel stores it, or tries to. -/
theorem listen_cons (h : n.channel = r :: rest) : (n.listen f).localDid = n.localDid ∧
    (n.listen f).storage = n.storage ∧ (n.listen f).channel = rest ∧
    (n.listen f).receipts = (n.receipts.storeReceipt f r).2 := by
  unfold listen receiveReceipt
  rw [h]
  dsimp only
  cases (n.receipts.storeReceipt f r).1 <;> exact ⟨rfl, rfl, rfl, rfl⟩

theorem listen_nil (h : n.channel = []) : n.listen f = n := by
  unfold listen
  rw [h]

/-- The list's status is a matter of the message's receipts. -/
theorem status_congr {n' : ReceiptNode} (hd : n'.localDid = n.localDid) (hs : n'.storage = n.storage)
    (hf : n'.receipts.fetchReceipts m.id = n.receipts.fetchReceipts m.id) : n'.status m = n.status m := by
  unfold status directStatus
  rw [hd, hs, hf]

/-- What the scan does not come across leaves the message's receipts alone, and so does what is not stored or is
there already; anything else changes them. -/
theorem fetch_storeReceipt (s : ReceiptStorage) : (s.storeReceipt f r).2.fetchReceipts m.id = s.fetchReceipts m.id ↔
    (f "read_receipts" (receiptKey r) = false → Text.HasPrefix (m.id ++ ":") (receiptKey r) →
      s.receipts[receiptKey r]? = some r) := by
  unfold ReceiptStorage.storeReceipt ReceiptStorage.fetchReceipts
  by_cases hf : f "read_receipts" (receiptKey r) = true
  · simp [treeInsert, hf]
  · rw [Bool.not_eq_true] at hf
    rw [treeInsert_ok hf]
    constructor
    · intro heq _ hpre
      by_contra hne
      exact scanPrefix_insert_ne hpre hne heq
    · intro h
      by_cases hpre : Text.HasPrefix (m.id ++ ":") (receiptKey r)
      · have hsame : s.receipts.insert (receiptKey r) r = s.receipts := by
          ext1 k
          rw [get_insert]
          split_ifs with hk
          · rw [← hk, h hf hpre]
          · rfl
        rw [hsame]
      · rw [scanPrefix_insert_of_not hpre]

theorem undisturbed_iff (n : ReceiptNode) (e : ReceiptStep) : n.Undisturbed E m e ↔ n.GenuineOnly E m e := by
  cases e with
  | request peer receipt =>
    exact iff_of_true (Or.inr ⟨rfl, rfl⟩) fun f r rest he => by cases he
  | lagged missed =>
    exact iff_of_true (Or.inr ⟨rfl, rfl⟩) fun f r rest he => by cases he
  | listen f =>
    cases hc : n.channel with
    | nil =>
      have hsame : n.step (.listen f) = n := listen_nil hc
      refine iff_of_true (Or.inr ?_) fun f r rest _ hcons => ?_
      · rw [hsame]
        exact ⟨rfl, rfl⟩
      · rw [hc] at hcons
        cases hcons
    | cons r rest =>
      obtain ⟨hd, hs, -, hr⟩ := listen_cons (f := f) hc
      have hfetch : (n.step (.listen f)).receipts.fetchReceipts m.id = n.receipts.fetchReceipts m.id ↔
          (f "read_receipts" (receiptKey r) = false → Text.HasPrefix (m.id ++ ":") (receiptKey r) →
            n.receipts.receipts[receiptKey r]? = some r) := by
        rw [show (n.step (.listen f)).receipts = (n.receipts.storeReceipt f r).2 from hr]
        exact fetch_storeReceipt n.receipts
      constructor
      · rintro (⟨f', r', rest', he, hcons, hgen⟩ | ⟨hkept, -⟩) f'' r'' rest'' he'' hcons'' hok hpre hnew
        · rw [hc] at hcons hcons''
          obtain ⟨rfl, -⟩ := List.cons.inj hcons
          obtain ⟨rfl, -⟩ := List.cons.inj hcons''
          exact hgen
        · cases he''
          rw [hc] at hcons''
          obtain ⟨rfl, -⟩ := List.cons.inj hcons''
          exact (hnew (hfetch.1 hkept hok hpre)).elim
      · intro h
        by_cases hgen : r.Genuine E m
        · exact Or.inl ⟨f, r, rest, rfl, hc, hgen⟩
        · have hkept := hfetch.2 fun hok hpre => by
            by_contra hnew
            exact hgen (h f r rest rfl hc hok hpre hnew)
          exact Or.inr ⟨hkept, status_congr hd hs hkept⟩

/-- What waits in the channel waited there, or has come in. -/
theorem mem_channel_step {e : ReceiptStep} (h : r ∈ (n.step e).channel) :
    r ∈ n.channel ∨ ∃ peer, e = .request peer r := by
  cases e with
  | request peer receipt =>
    rcases List.mem_append.1 h with h | h
    · exact Or.inl h
    · exact Or.inr ⟨peer, by rw [List.mem_singleton.1 h]⟩
  | lagged missed => exact Or.inl (List.drop_subset _ _ h)
  | listen f =>
    cases hc : n.channel with
    | nil =>
      rw [show n.step (.listen f) = n from listen_nil hc, hc] at h
      exact Or.inl h
    | cons a rest =>
      rw [show (n.step (.listen f)).channel = rest from (listen_cons hc).2.2.1] at h
      exact Or.inl (List.mem_cons_of_mem a h)

/-- Along an undisturbed run a status that receipts give comes of a genuine one. -/
theorem genuine_of_acknowledged {es : List ReceiptStep} (hg : StepSystem.Guarded receiptSys (Undisturbed E m) n es)
    (h : (es.foldl step n).Acknowledged m) :
    n.Acknowledged m ∨ ∃ r : ReadReceipt, r.Genuine E m ∧ (r ∈ n.channel ∨ ∃ peer, .request peer r ∈ es) := by
  induction es generalizing n with
  | nil => exact Or.inl h
  | cons e es ih =>
    obtain ⟨hstep, hrest⟩ := hg
    rcases ih hrest h with hack | ⟨r, hgen, hmem | ⟨peer, hmem⟩⟩
    · rcases hstep with ⟨f, r, rest, -, hc, hgen⟩ | ⟨-, hstatus⟩
      · exact Or.inr ⟨r, hgen, Or.inl (by rw [hc]; exact List.mem_cons_self)⟩
      · have hsame : (receiptSys.step n e).status m = n.status m := hstatus
        unfold Acknowledged at hack ⊢
        rw [hsame] at hack
        exact Or.inl hack
    · rcases mem_channel_step hmem with hmem | ⟨peer, rfl⟩
      · exact Or.inr ⟨r, hgen, Or.inl hmem⟩
      · exact Or.inr ⟨r, hgen, Or.inr ⟨peer, List.mem_cons_self⟩⟩
    · exact Or.inr ⟨r, hgen, Or.inr ⟨peer, List.mem_cons_of_mem e hmem⟩⟩

/-- From every state, for every message and along every run: receipts are authentic if and only if each that is taken
up and stored for the message, and is new, is genuine. -/
theorem receipts_authentic (E : Ed25519) (m : DirectMessage) (n : ReceiptNode) (es : List ReceiptStep) :
    n.Authentic E m es ↔ StepSystem.Guarded receiptSys (GenuineOnly E m) n es := by
  have hiff : StepSystem.Guarded receiptSys (Undisturbed E m) n es ↔
      StepSystem.Guarded receiptSys (GenuineOnly E m) n es :=
    StepSystem.guarded_iff (I := fun _ => True) (fun n e _ => undisturbed_iff n e) (fun _ _ _ _ => trivial) trivial es
  unfold Authentic
  rw [hiff, and_iff_left_iff_imp]
  rintro hg before after rfl hack
  exact genuine_of_acknowledged (hiff.2 hg).left hack

end ReceiptNode
namespace ReceiptAuthenticity

/-- Nothing verifies. -/
def refusing : Ed25519 where
  validKey _ := true
  verify _ _ _ := false
  encodeDocument doc := utf8Bytes doc.id
  keyOf _ := List.replicate 32 1
  peerId key := String.ofList (key.map fun b => Char.ofNat b.toNat)

/-- `did:a` sent it to `did:b`. -/
def message : DirectMessage :=
  { id := "x", senderDid := "did:a", recipientDid := "did:b", ciphertext := [], olmMessageType := 1, signature := []
    timestamp := 0, type := 1, replyTo := none, senderIdentityKey := none }

def node : ReceiptNode := ⟨"did:a", .empty, .empty, [], []⟩

/-- Anybody's receipt, without a signature, and the message is read. -/
theorem forged_receipt_read : ¬ ∀ (E : Ed25519) (m : DirectMessage) (n : ReceiptNode) (es : List ReceiptStep),
    n.Authentic E m es := by
  intro h
  have hall := (h refusing message node
    [.request "peer" ⟨"x", "did:c", receiptRead, 1, []⟩, .listen noFaults]).2 _ [] (List.append_nil _).symm
  have hrun : ([ReceiptStep.request "peer" ⟨"x", "did:c", receiptRead, 1, []⟩, .listen noFaults].foldl
        ReceiptNode.step node).status message = some "read" ∧
      node.status message = some "sent" := by decide +kernel
  rcases hall (Or.inr hrun.1) with hack | ⟨r, hgen, -⟩
  · unfold ReceiptNode.Acknowledged at hack
    rw [hrun.2] at hack
    exact absurd hack (by decide)
  · have hverify := hgen.2.2
    simp [ReadReceipt.verifyWithKey, refusing] at hverify

end ReceiptAuthenticity
end Variance
