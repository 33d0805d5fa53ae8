import Aitt.AittImpl

/-! Requests and replies of `AITT::Impl`: the reply topic with its counter, the subscription
that `PublishWithReply` opens under it, and the metadata that `SendReply` writes. -/
namespace AittRequest

open AittTypes MqttProperties AittImpl
open MosquittoMQ (Client SubscribeData)
open TcpModule (Failure)

def responsePostfix : String := "_AittRe_"

variable {κ : Type}

def replyTopic (i : Impl κ) (topic : String) : String :=
  topic ++ responsePostfix ++ toString i.replyId.toNat

/-- The first half of `PublishWithReply`. The counter moves on whether or not `Subscribe`
throws; `cb` stands for the lambda around the caller's callback. -/
def openReply (i : Impl κ) (protocol : AittProtocol) (topic : String) (cb : κ)
    (userData : Address) (o : Outcome) : Impl κ × Except Failure Address :=
  let r := i.subscribe protocol (replyTopic i topic) cb userData o
  ({ r.1 with replyId := i.replyId + 1 }, r.2)

def sendReply (m : AittMsg) (last : Bool) : AittMsg :=
  { (if last = false ∨ m.sequence ≠ 0 then m.increaseSequence else m) with endSequence := last }

theorem sendReply_replyTopic (m : AittMsg) (last : Bool) :
    (sendReply m last).replyTopic = m.replyTopic := by
  simp only [sendReply, AittMsg.increaseSequence]
  split <;> rfl

theorem subscribe_mq (i : Impl κ) {protocol : AittProtocol} {topic : String} {cb : κ}
    {userData : Address} {o : Outcome} :
    ∀ d ∈ (i.subscribe protocol topic cb userData o).1.mq.live,
      d ∈ i.mq.live ∨ d = ⟨o.handle, topic, ⟨o.info, cb⟩, userData⟩ := by
  have transport : ∀ d ∈ (i.transportSubscribe protocol topic cb userData o).1.mq.live,
      d ∈ i.mq.live ∨ d = ⟨o.handle, topic, ⟨o.info, cb⟩, userData⟩ := by
    intro d hd
    cases protocol with
    | mqtt =>
      simp only [Impl.transportSubscribe, Impl.subscribeMQ] at hd
      cases hret : o.ret with
      | false =>
        rw [hret, MosquittoMQ.subscribe_fails] at hd
        exact Or.inl hd
      | true =>
        rw [hret, MosquittoMQ.subscribe_succeeds] at hd
        have hp := MosquittoMQ.subscribe_live i.mq ⟨o.handle, topic, ⟨o.info, cb⟩, userData⟩
        have hm : d ∈ (i.mq.subscribe ⟨o.handle, topic, ⟨o.info, cb⟩, userData⟩ true).1.live := by
          simp only at hd
          split at hd <;> exact hd
        exact (List.mem_cons.mp (hp.subset hm)).symm
    | _ => exact Or.inl hd
  unfold Impl.subscribe
  split
  · next hs => simpa [hs] using transport
  · next hs => simpa [hs] using transport

theorem unsubscribe_mq (i : Impl κ) {id : Address} {ret published : Bool} :
    ∀ d ∈ (i.unsubscribe id ret published).1.mq.live, d ∈ i.mq.live := by
  have client : ∀ handle, ∀ d ∈ (i.mq.unsubscribe handle ret).1.live, d ∈ i.mq.live := by
    intro handle d hd
    unfold Client.unsubscribe at hd
    split at hd
    · exact hd
    · split at hd
      · exact hd
      · next data hdata =>
        exact (MosquittoMQ.erase_live hdata).symm.subset (List.mem_cons_of_mem _ hd)
  have transport : ∀ info, ∀ d ∈ (i.transportUnsubscribe info ret published).1.mq.live,
      d ∈ i.mq.live := by
    intro info d hd
    unfold Impl.transportUnsubscribe at hd
    split at hd
    · unfold Impl.unsubscribeMQ at hd
      have := client info.handle d
      split at hd
      · next hs => exact this (by simpa [hs] using hd)
      · next hs =>
        refine this ?_
        rw [hs]
        split at hd <;> exact hd
    · exact hd
    · exact hd
    · exact hd
  intro d hd
  unfold Impl.unsubscribe at hd
  split at hd
  · exact hd
  · next info hf =>
    have := transport info d
    split at hd
    · next hs => exact this (by simpa [hs] using hd)
    · next hs => exact this (by simpa [hs] using hd)

end AittRequest
