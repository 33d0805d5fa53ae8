import Aitt.RequestMetadata

/-! The callbacks that one TCP message leads to. `ReceiveData` passes the same `AittMsg` to all
of them, one after the other, and each of them may reply on it or set its fields; over MQTT
every subscriber gets a message of its own. -/
namespace TcpSharedMessage

open AittTypes AittImpl RequestMetadata

inductive Act where
  | sendReply (payload : Bytes) (last : Bool)
  | setTopic (topic : String)
  | setResponseTopic (replyTopic : String)
  | setCorrelation (correlation : Bytes)
  | setSequence (num : Int32)
  | increaseSequence
  | setEndSequence (last : Bool)
  | setId (id : Address)
  | setProtocol (protocol : AittProtocol)
  deriving DecidableEq, Repr

def Act.perform (m : AittMsg) : Act → AittMsg
  | .sendReply _ last => AittRequest.sendReply m last
  | .setTopic topic => { m with topic := topic }
  | .setResponseTopic replyTopic => { m with replyTopic := replyTopic }
  | .setCorrelation correlation => { m with correlation := correlation }
  | .setSequence num => { m with sequence := num }
  | .increaseSequence => m.increaseSequence
  | .setEndSequence last => { m with endSequence := last }
  | .setId id => { m with id := id }
  | .setProtocol protocol => { m with protocol := protocol }

def replies : AittMsg → List Act → List (AittMsg × Bytes)
  | _, [] => []
  | m, .sendReply payload last :: acts =>
    (AittRequest.sendReply m last, payload) :: replies (AittRequest.sendReply m last) acts
  | m, act :: acts => replies (act.perform m) acts

abbrev Callback := AittMsg → Bytes → List Act

structure Observation where
  msg : AittMsg
  payload : Bytes
  replies : List (AittMsg × Bytes)
  deriving DecidableEq, Repr

variable (secure : Bool) (payload : Bytes)

/-- The lambda of `SubscribeTCP` sets id and protocol before it calls the callback. -/
def enter (c : Closure Callback) (m : AittMsg) : AittMsg :=
  { m with id := c.info, protocol := tcpProtocol secure }

def observe (c : Closure Callback) (m : AittMsg) : Observation :=
  let msg := enter secure c m
  ⟨msg, payload, replies msg (c.cb msg payload)⟩

def leave (c : Closure Callback) (m : AittMsg) : AittMsg :=
  let msg := enter secure c m
  (c.cb msg payload).foldl Act.perform msg

def callEach : AittMsg → List (Closure Callback) → List Observation
  | _, [] => []
  | m, c :: cs => observe secure payload c m :: callEach (leave secure payload c m) cs

def callOwn (m : AittMsg) (cs : List (Closure Callback)) : List Observation :=
  cs.map (observe secure payload · m)

def Unmarked (m : AittMsg) (c : Closure Callback) : Prop :=
  metadata (leave secure payload c m) = metadata m

variable {secure payload}

/-- Only what came from the sender is passed on from one callback to the next. -/
theorem enter_eq_iff (c : Closure Callback) (m m' : AittMsg) :
    enter secure c m' = enter secure c m ↔ metadata m' = metadata m := by
  simp only [enter, metadata, AittMsg.mk.injEq, Metadata.mk.injEq]
  tauto

theorem observe_congr {c : Closure Callback} {m m' : AittMsg} (h : metadata m' = metadata m) :
    observe secure payload c m' = observe secure payload c m := by
  rw [observe, observe, (enter_eq_iff c m m').mpr h]

theorem leave_congr {c : Closure Callback} {m m' : AittMsg} (h : metadata m' = metadata m) :
    leave secure payload c m' = leave secure payload c m := by
  rw [leave, leave, (enter_eq_iff c m m').mpr h]

theorem callEach_congr {m m' : AittMsg} (h : metadata m' = metadata m)
    (cs : List (Closure Callback)) :
    callEach secure payload m' cs = callEach secure payload m cs := by
  cases cs with
  | nil => rfl
  | cons c cs => rw [callEach, callEach, observe_congr h, leave_congr h]

theorem metadata_of_observe {c : Closure Callback} {m m' : AittMsg}
    (h : observe secure payload c m' = observe secure payload c m) : metadata m' = metadata m :=
  (enter_eq_iff c m m').mp (congrArg Observation.msg h)

/-- All callbacks observe and reply as if they were the only one, exactly if every callback but
the last leaves topics, correlation, sequence number and end flag as they were. -/
theorem callbacks_isolated_iff (m : AittMsg) (cs : List (Closure Callback)) :
    callEach secure payload m cs = callOwn secure payload m cs ↔
      ∀ c ∈ cs.dropLast, Unmarked secure payload m c := by
  induction cs with
  | nil => exact iff_of_true rfl nofun
  | cons c cs ih =>
    cases cs with
    | nil => exact iff_of_true rfl nofun
    | cons d cs =>
      rw [List.dropLast_cons_of_ne_nil (List.cons_ne_nil d cs), List.forall_mem_cons]
      constructor
      · intro h
        have htail : callEach secure payload (leave secure payload c m) (d :: cs) =
            callOwn secure payload m (d :: cs) := (List.cons.inj h).2
        have hmark : Unmarked secure payload m c :=
          metadata_of_observe (List.cons.inj htail).1
        rw [callEach_congr hmark] at htail
        exact ⟨hmark, ih.mp htail⟩
      · rintro ⟨hmark, hrest⟩
        have htail := ih.mpr hrest
        rw [← callEach_congr hmark] at htail
        exact congrArg (observe secure payload c m :: ·) htail

def replying (id : Address) (ends : List Bool) : Closure Callback :=
  ⟨id, fun _ _ => ends.map (.sendReply [])⟩

def request : AittMsg := { topic := "ask", replyTopic := "ask_AittRe_0", correlation := [1] }

/-- Two callbacks with one reply each, which is the last. -/
example : callEach false [] request [replying 1 [true], replying 2 [true]] =
    callOwn false [] request [replying 1 [true], replying 2 [true]] := by decide +kernel

/-- After a callback that replies twice, the next one finds a sequence number and goes on
counting. -/
theorem second_callback_misled :
    callEach false [] request [replying 1 [false, true], replying 2 [false]] ≠
        callOwn false [] request [replying 1 [false, true], replying 2 [false]] ∧
      (callEach false [] request [replying 1 [false, true], replying 2 [false]]).map
        (fun o => (o.msg.sequence, o.replies.map (·.1.sequence))) = [(0, [1, 2]), (2, [3])] := by
  constructor <;> decide +kernel

end TcpSharedMessage
