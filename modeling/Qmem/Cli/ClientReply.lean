import Qmem.Cli.Client

/-!
# What the client takes for an answer

`client_request` returns the length that the header announces. How much of the payload fits into
the buffer, and how much of it comes at all, the caller is not told.

Main result: `clientRequest_exact_iff`.
-/

namespace Qmem

open CLib

/-- What a caller understands by a returned length: so many bytes were announced, all of them came
and all of them are in the buffer, with a NUL behind them. -/
def ExactReply (inbound response : Bytes) (result : Int32 × Bytes) : Prop :=
  ∀ n : Nat, result.1.toInt = n →
    (MsgHeader.ofBytes inbound).length.toNat = n ∧ n < response.length ∧
      ∃ payload rest, inbound.drop MsgHeader.size = payload ++ rest ∧ payload.length = n ∧
        result.2 = payload ++ 0 :: response.drop (n + 1)

/-- The peer sends no header, one of something else, or one with a length that is negative as an
`int`; or it sends all it announces, and there is room for that. -/
def ReplyFits (inbound : Bytes) (responseSize : Nat) : Prop :=
  inbound.length < MsgHeader.size ∨ (MsgHeader.ofBytes inbound).magic ≠ qmemMsgMagic ∨
    2 ^ 31 ≤ (MsgHeader.ofBytes inbound).length.toNat ∨
    (MsgHeader.ofBytes inbound).length.toNat < responseSize ∧
      MsgHeader.size + (MsgHeader.ofBytes inbound).length.toNat ≤ inbound.length

instance (inbound : Bytes) (responseSize : Nat) : Decidable (ReplyFits inbound responseSize) :=
  inferInstanceAs (Decidable (_ ∨ _ ∨ _ ∨ _))

/-- `(int)length` is the length, or negative. -/
theorem toInt_toInt32 (length : UInt32) :
    length.toInt32.toInt =
      if length.toNat < 2 ^ 31 then (length.toNat : Int) else length.toNat - 2 ^ 32 := by
  show length.toBitVec.toInt = _
  rw [BitVec.toInt_eq_toNat_cond]
  have htoNat : length.toBitVec.toNat = length.toNat := rfl
  rw [htoNat]
  split <;> split <;> omega

section

variable {server : Bytes → Bytes} {type : ReqType} {data : Option Bytes} {dataLen : Nat}
  {inbound response : Bytes}

/-- Without a header of the protocol the request fails. -/
theorem clientRequest_refused (hserver : server (requestBytes type data dataLen) = inbound)
    (h : inbound.length < MsgHeader.size ∨ (MsgHeader.ofBytes inbound).magic ≠ qmemMsgMagic) :
    clientRequest server type data dataLen response = (-1, response) := by
  rw [clientRequest, hserver]
  split
  · rfl
  · case isFalse hheader => simp only [if_pos (h.resolve_left hheader)]

/-- With one it returns the length in it. -/
theorem clientRequest_length (hserver : server (requestBytes type data dataLen) = inbound)
    (hheader : ¬ inbound.length < MsgHeader.size)
    (hmagic : (MsgHeader.ofBytes inbound).magic = qmemMsgMagic) :
    (clientRequest server type data dataLen response).1 =
      (MsgHeader.ofBytes inbound).length.toInt32 := by
  rw [clientRequest, hserver, if_neg hheader]
  simp only [hmagic, ne_eq, not_true_eq_false, if_false]

/-- And what there is of the payload is in the buffer, if it fits. -/
theorem clientRequest_buffer (hserver : server (requestBytes type data dataLen) = inbound)
    (hheader : ¬ inbound.length < MsgHeader.size)
    (hmagic : (MsgHeader.ofBytes inbound).magic = qmemMsgMagic)
    (hroom : (MsgHeader.ofBytes inbound).length.toNat < response.length) :
    (clientRequest server type data dataLen response).2 =
      memcpy response 0 ((inbound.drop MsgHeader.size).take
        (MsgHeader.ofBytes inbound).length.toNat ++ [0]) := by
  rw [clientRequest, hserver, if_neg hheader]
  simp only [hmagic, ne_eq, not_true_eq_false, if_false, if_neg (Nat.not_le.2 hroom)]
  split
  · rfl
  · case isFalse hzero => rw [Nat.eq_zero_of_not_pos hzero, List.take_zero, List.nil_append]

/-- The length that is returned, as a number: that of the header. -/
theorem length_of_returned (hserver : server (requestBytes type data dataLen) = inbound)
    (hheader : ¬ inbound.length < MsgHeader.size)
    (hmagic : (MsgHeader.ofBytes inbound).magic = qmemMsgMagic) {n : Nat}
    (hn : (clientRequest server type data dataLen response).1.toInt = n) :
    (MsgHeader.ofBytes inbound).length.toNat = n ∧ n < 2 ^ 31 := by
  rw [clientRequest_length hserver hheader hmagic, toInt_toInt32] at hn
  have hlt := (MsgHeader.ofBytes inbound).length.toNat_lt
  split at hn <;> omega

/-- A reply that fits is exact. -/
theorem exact_of_fits (hserver : server (requestBytes type data dataLen) = inbound)
    (hheader : ¬ inbound.length < MsgHeader.size)
    (hmagic : (MsgHeader.ofBytes inbound).magic = qmemMsgMagic)
    (hfits : ReplyFits inbound response.length) :
    ExactReply inbound response (clientRequest server type data dataLen response) := by
  intro n hn
  obtain ⟨hlength, hsmall⟩ := length_of_returned hserver hheader hmagic hn
  have ⟨hroom, hcame⟩ : n < response.length ∧ MsgHeader.size + n ≤ inbound.length := by
    rw [ReplyFits, hlength] at hfits
    rcases hfits with hnone | hother | hbig | hfits
    · exact absurd hnone hheader
    · exact absurd hmagic hother
    · exact absurd hsmall (Nat.not_lt.2 hbig)
    · exact hfits
  have hall : ((inbound.drop MsgHeader.size).take n).length = n := by
    rw [List.length_take_of_le]
    rw [List.length_drop]
    omega
  refine ⟨hlength, hroom, (inbound.drop MsgHeader.size).take n,
    (inbound.drop MsgHeader.size).drop n, (List.take_append_drop _ _).symm, hall, ?_⟩
  rw [clientRequest_buffer hserver hheader hmagic (hlength ▸ hroom), hlength, memcpy,
    List.take_zero, List.nil_append, List.length_append, hall, List.append_assoc,
    List.length_singleton, Nat.zero_add]
  rfl

/-- And an exact one fits. -/
theorem fits_of_exact (hserver : server (requestBytes type data dataLen) = inbound)
    (hheader : ¬ inbound.length < MsgHeader.size)
    (hmagic : (MsgHeader.ofBytes inbound).magic = qmemMsgMagic)
    (hexact : ExactReply inbound response (clientRequest server type data dataLen response)) :
    ReplyFits inbound response.length := by
  by_cases hbig : 2 ^ 31 ≤ (MsgHeader.ofBytes inbound).length.toNat
  · exact .inr (.inr (.inl hbig))
  · have hreturned : (clientRequest server type data dataLen response).1.toInt =
        (MsgHeader.ofBytes inbound).length.toNat := by
      rw [clientRequest_length hserver hheader hmagic, toInt_toInt32,
        if_pos (Nat.lt_of_not_le hbig)]
    obtain ⟨-, hroom, payload, rest, hpayload, hall, -⟩ := hexact _ hreturned
    have hsize := congrArg List.length hpayload
    rw [List.length_drop, List.length_append] at hsize
    have hcame : MsgHeader.size + (MsgHeader.ofBytes inbound).length.toNat ≤ inbound.length := by
      omega
    exact .inr (.inr (.inr ⟨hroom, hcame⟩))

end

/-- **A returned length can be relied on exactly when the reply fits**: neither a peer that dies in
the middle of its answer nor one that announces more than the buffer holds is told apart. -/
theorem clientRequest_exact_iff (server : Bytes → Bytes) (type : ReqType) (data : Option Bytes)
    (dataLen : Nat) (response : Bytes) :
    ExactReply (server (requestBytes type data dataLen)) response
        (clientRequest server type data dataLen response) ↔
      ReplyFits (server (requestBytes type data dataLen)) response.length := by
  obtain ⟨inbound, hserver⟩ : ∃ inbound, server (requestBytes type data dataLen) = inbound :=
    ⟨_, rfl⟩
  rw [hserver]
  by_cases hrefused : inbound.length < MsgHeader.size ∨
      (MsgHeader.ofBytes inbound).magic ≠ qmemMsgMagic
  · have hresult : clientRequest server type data dataLen response = (-1, response) :=
      clientRequest_refused hserver hrefused
    refine iff_of_true (fun n hn => ?_) (hrefused.imp_right Or.inl)
    rw [hresult] at hn
    exact absurd hn (by
      show (-1 : Int) ≠ n
      omega)
  · push Not at hrefused
    obtain ⟨hheader, hmagic⟩ := hrefused
    have hheader : ¬ inbound.length < MsgHeader.size := Nat.not_lt.2 hheader
    exact ⟨fits_of_exact hserver hheader hmagic, exact_of_fits hserver hheader hmagic⟩

/-- A peer that announces two bytes and dies after the first: 2 is returned for one byte. -/
theorem short_reply_passes :
    let answer := (MsgHeader.init ReqType.status.code 2).bytes ++ [0x6f]
    clientRequest (fun _ => answer) .status none 0 [1, 1, 1, 1] = (2, [0x6f, 0, 1, 1]) ∧
      ¬ ExactReply answer [1, 1, 1, 1]
        (clientRequest (fun _ => answer) .status none 0 [1, 1, 1, 1]) := by
  refine ⟨by decide, fun hexact => ?_⟩
  obtain ⟨-, -, payload, rest, hpayload, hall, -⟩ := hexact 2 (by decide)
  have hone : ((MsgHeader.init ReqType.status.code 2).bytes ++ [0x6f]).drop MsgHeader.size =
      [0x6f] := by decide
  have hsize := congrArg List.length (hone.symm.trans hpayload)
  rw [List.length_append, hall, List.length_singleton] at hsize
  omega

end Qmem
