import Variance.Lib.Codec
import Variance.Lib.Text
import Variance.Spec.Node

/-! A concrete wire: hex as it is, and one self-delimiting code for each message. -/

namespace Variance
namespace IdealWire
open Text

def bytes : Codec Bytes := .list .byte

def memberCodec : Codec GroupMember :=
  (Codec.prod .string (.prod .int (.prod .int (.option .string)))).map
    (fun m => (m.did, m.role, m.joinedAt, m.nickname)) (fun p => ⟨p.1, p.2.1, p.2.2.1, p.2.2.2⟩)
    fun _ => rfl

def invitationCodec : Codec GroupInvitation :=
  (Codec.prod .string (.prod .string (.prod .string (.prod .string (.prod .int
    (.prod (.list memberCodec) (.prod bytes bytes))))))).map
    (fun i => (i.groupId, i.groupName, i.inviterDid, i.inviteeDid, i.timestamp, i.members,
      i.mlsWelcome, i.mlsCommit))
    (fun p => ⟨p.1, p.2.1, p.2.2.1, p.2.2.2.1, p.2.2.2.2.1, p.2.2.2.2.2.1, p.2.2.2.2.2.2.1,
      p.2.2.2.2.2.2.2⟩) fun _ => rfl

def attachmentCodec : Codec Attachment :=
  (Codec.prod .int (.prod .string (.prod .string (.prod .nat (.prod .string (.option .string)))))).map
    (fun a => (a.type, a.cid, a.name, a.size, a.mimeType, a.thumbnailCid))
    (fun p => ⟨p.1, p.2.1, p.2.2.1, p.2.2.2.1, p.2.2.2.2.1, p.2.2.2.2.2⟩) fun _ => rfl

theorem ofList_toList (t : SledTree String) : Std.ExtTreeMap.ofList t.toList = t := by
  refine Std.ExtTreeMap.ext_getElem? fun k => ?_
  cases h : t[k]? with
  | none =>
    refine Std.ExtTreeMap.getElem?_ofList_of_contains_eq_false ?_
    simpa using h
  | some v =>
    refine Std.ExtTreeMap.getElem?_ofList_of_mem (k := k) (by simp) ?_ ?_
    · exact Std.ExtTreeMap.distinct_keys_toList
    · exact (mem_iter t).2 h

def contentCodec : Codec MessageContent :=
  (Codec.prod .string (.prod (.list attachmentCodec) (.prod (.list .string) (.prod (.option .string)
    (.list (.prod .string .string)))))).map
    (fun c => (c.text, c.attachments, c.mentions, c.replyTo, c.metadata.toList))
    (fun p => ⟨p.1, p.2.1, p.2.2.1, p.2.2.2.1, .ofList p.2.2.2.2⟩)
    fun c => by simp [ofList_toList]

def receiptCodec : Codec GroupReadReceipt :=
  (Codec.prod .string (.prod .string (.prod .string (.prod .int (.prod .int bytes))))).map
    (fun r => (r.messageId, r.groupId, r.readerDid, r.status, r.timestamp, r.signature))
    (fun p => ⟨p.1, p.2.1, p.2.2.1, p.2.2.2.1, p.2.2.2.2.1, p.2.2.2.2.2⟩) fun _ => rfl

def payloadCodec : Codec GroupPayload :=
  (Codec.sum contentCodec receiptCodec).map
    (fun
      | .message c => .inl c
      | .receipt r => .inr r)
    (fun
      | .inl c => .message c
      | .inr r => .receipt r)
    fun p => by cases p <;> rfl

end IdealWire

open IdealWire Text in
def idealWire : Wire where
  hexEncode b := String.ofList (hexChars b)
  hexDecode s := unhexChars s.toList
  encodeInvitation := invitationCodec.enc
  decodeInvitation := invitationCodec.decode
  encodeGroupPayload := payloadCodec.enc
  decodeGroupPayload := payloadCodec.decode
  encodeMessageContent := contentCodec.enc
  decodeMessageContent := contentCodec.decode
  sign _ _ := []
  signGroupReceipt _ _ := []

/-- An invitation comes out of its hex as it went in. -/
theorem idealWire_invitation (i : GroupInvitation) :
    (idealWire.hexDecode (idealWire.hexEncode (idealWire.encodeInvitation i))).bind
      idealWire.decodeInvitation = some i := by
  simp [idealWire, Text.unhexChars_hexChars]

end Variance
