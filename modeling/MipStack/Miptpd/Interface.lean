import MipStack.Miptpd.Acknowledgement
import MipStack.Miptpd.Server

/-!
# How miptpd reads the messages of mipd (`MIPTPServer_run`, mipd event)

mipd writes an address, two bytes of size and the data; miptpd takes the buffer for a `MIPDMessage`,
whose size starts at byte 2 and whose data is a pointer at byte 8.

* `misreadSize`, `misreadPointer`   the fields that miptpd finds in the bytes of a message;
* `handleMipdData_eq`  the event with these;
* `Agrees`             the controller ends up as if the message itself had been handed over;
* `SameEffect`         two packages that do the same to a sender;
* `agrees_iff`         **daemons agree exactly where both packages can be read and do the same to every
                       sender**;
* `acknowledgement_misread`   an acknowledgement, for which miptpd reads through a null pointer.
-/

namespace MipStack
open Library

/-! ## what is read -/

namespace MIPDMessage

/-- the high byte of the size, and the first byte of the data -/
def misreadSize (m : MIPDMessage) : UInt16 :=
  UInt16.ofNat (ofLe [UInt8.ofNat (m.data.length / 256), m.data.headD 0])

/-- eight bytes of the data, zeros behind its end -/
def misreadPointer (m : MIPDMessage) : ℕ := ofLe ((m.data.drop 5).takeD 8 0)

/-- the message as one `read` gives it -/
def sent (m : MIPDMessage) : ReadBytes :=
  ⟨m.serialize, by
    have hsize : m.data.length ≤ 1496 := m.size
    rw [length_serialize]
    show _ ≤ 65535
    omega⟩

theorem readBuffer_sent (m : MIPDMessage) : m.sent.readBuffer =
    [m.mipAddress, UInt8.ofNat m.data.length, UInt8.ofNat (m.data.length / 256)] ++
      m.data.takeD 65532 0 := by
  have hsize : PACKET_BUFFER_SIZE = 65532 + 1 + 1 + 1 := rfl
  show m.serialize.takeD PACKET_BUFFER_SIZE 0 = _
  rw [hsize, List.takeD_succ, List.takeD_succ, List.takeD_succ]
  rfl

end MIPDMessage

namespace MIPTPServer

/-- **The event, by the fields that are misread.** -/
theorem handleEvent_sent (s : MIPTPServer) (m : MIPDMessage) (memory : ℕ → List UInt8) :
    s.handleEvent (.mipd m.sent memory) =
      (match s.appController.handleMipdPackage m.mipAddress m.misreadSize (memory m.misreadPointer) with
        | .error f => Except.error f
        | .ok result => s.checkRc result).map fun s => (s, []) := by
  have hlen : m.sent.1.length ≠ 0 := by
    show m.serialize.length ≠ 0
    rw [MIPDMessage.length_serialize]
    omega
  have hsize : (m.sent.readBuffer.drop 2).take 2
      = [UInt8.ofNat (m.data.length / 256), m.data.headD 0] := by
    rw [m.readBuffer_sent]
    show UInt8.ofNat (m.data.length / 256) :: (m.data.takeD 65532 0).take 1 = _
    rw [take_takeD 0 m.data (by omega), List.takeD_succ]
    cases m.data <;> rfl
  have hpointer : (m.sent.readBuffer.drop 8).take 8 = (m.data.drop 5).takeD 8 0 := by
    rw [m.readBuffer_sent]
    show ((m.data.takeD (5 + 65527) 0).drop 5).take 8 = _
    rw [drop_takeD, take_takeD 0 _ (by omega)]
  have haddress : m.sent.readBuffer.headD 0 = m.mipAddress := by
    rw [m.readBuffer_sent]
    rfl
  rw [handleEvent, if_neg hlen, handleMipdData, hsize, hpointer, haddress]
  rfl

end MIPTPServer

/-! ## two packages for one connection -/

theorem SlidingWindow.update_eq_update_iff (w : SlidingWindow) (s t : UInt16) :
    w.update s = w.update t ↔ s = t ∨ s ≤ w.sequenceBase ∧ t ≤ w.sequenceBase := by
  constructor
  · intro h
    have hs := w.sequenceBase_update s
    rw [h, w.sequenceBase_update t] at hs
    rw [UInt16.le_iff_toNat_le, UInt16.le_iff_toNat_le, ← UInt16.toNat_inj]
    omega
  · intro h
    rcases h with rfl | ⟨hs, ht⟩
    · rfl
    · rw [(w.update_eq_self_iff s).mpr hs, (w.update_eq_self_iff t).mpr ht]

namespace AppConnection

/-- the number of the package is not above the base of the sender -/
def Old (package : MIPTPPackage) (c : AppConnection) : Prop :=
  ∀ job, c.sJob = some job → package.miptpHeader.PSN ≤ job.slidingWindow.sequenceBase

/-- **Two packages do the same to a sender.**  If both have its port, they have the same number or no
news; if one has, it finds the sender settled. -/
def SameEffect (p p' : MIPTPPackage) (c : AppConnection) : Prop :=
  if c.port = p.miptpHeader.port ∧ c.port = p'.miptpHeader.port then
    p.miptpHeader.PSN = p'.miptpHeader.PSN ∨ c.Old p ∧ c.Old p'
  else (c.port = p.miptpHeader.port → c.Settled p) ∧ (c.port = p'.miptpHeader.port → c.Settled p')

variable {limit : ℕ} {c : AppConnection}

/-- all but senders ignore packages -/
theorem received_of_not_sender (hc : c.status ≠ .CONN_SENDER) (package : MIPTPPackage) :
    c.received package = c := by
  unfold AppConnection.received
  split
  · rename_i hstatus _
    exact absurd hstatus hc
  · rfl

theorem WellFormed.received_eq_self_iff (h : c.WellFormed limit) (hc : c.status = .CONN_SENDER)
    (package : MIPTPPackage) : c.received package = c ↔ c.Settled package := by
  rw [← stays_iff (h.receivePackage_eq 0 package) hc]
  obtain ⟨port, socket, connectedMip, status, sJob, rJob⟩ := c
  obtain rfl : status = .CONN_SENDER := hc
  obtain ⟨job, rfl⟩ := Option.isSome_iff_exists.mp (h.sender rfl)
  constructor
  · intro heq
    exact ⟨congrArg AppConnection.sJob heq, congrArg AppConnection.status heq⟩
  · rintro ⟨hjob, hstatus⟩
    show AppConnection.mk port socket connectedMip _ _ rJob = _
    exact congrArg₂ (fun status sJob => AppConnection.mk port socket connectedMip status sJob rJob)
      hstatus hjob

theorem WellFormed.received_eq_received_iff (h : c.WellFormed limit) (hc : c.status = .CONN_SENDER)
    (p p' : MIPTPPackage) : c.received p = c.received p' ↔
      p.miptpHeader.PSN = p'.miptpHeader.PSN ∨ c.Old p ∧ c.Old p' := by
  obtain ⟨port, socket, connectedMip, status, sJob, rJob⟩ := c
  obtain rfl : status = .CONN_SENDER := hc
  obtain ⟨job, rfl⟩ := Option.isSome_iff_exists.mp (h.sender rfl)
  have hold : ∀ q : MIPTPPackage, Old q ⟨port, socket, connectedMip, .CONN_SENDER, some job, rJob⟩ ↔
      q.miptpHeader.PSN ≤ job.slidingWindow.sequenceBase := by
    intro q
    constructor
    · exact fun hq => hq job rfl
    · intro hq job' hjob'
      rw [← Option.some.inj hjob']
      exact hq
  rw [hold, hold, ← job.slidingWindow.update_eq_update_iff]
  constructor
  · intro heq
    exact congrArg MIPTPSendJob.slidingWindow (Option.some.inj (congrArg AppConnection.sJob heq))
  · intro heq
    have hjob : job.receivePackage p = job.receivePackage p' := by
      rw [MIPTPSendJob.receivePackage, heq]
      rfl
    simp only [AppConnection.received]
    rw [hjob]

theorem WellFormed.dispatched_eq_iff (h : c.WellFormed limit) (p p' : MIPTPPackage) :
    c.dispatched p' = c.dispatched p ↔ (c.status = .CONN_SENDER → c.SameEffect p p') := by
  by_cases hc : c.status = .CONN_SENDER
  swap
  · have hsame : ∀ q : MIPTPPackage, c.dispatched q = c := by
      intro q
      rw [AppConnection.dispatched, received_of_not_sender hc q, ite_self]
    rw [hsame, hsame]
    exact iff_of_true rfl fun hstatus => absurd hstatus hc
  rw [imp_iff_right hc, SameEffect, AppConnection.dispatched, AppConnection.dispatched]
  by_cases hp : c.port = p.miptpHeader.port
  · by_cases hp' : c.port = p'.miptpHeader.port
    · rw [if_pos hp, if_pos hp', if_pos ⟨hp, hp'⟩, eq_comm, h.received_eq_received_iff hc]
    · rw [if_pos hp, if_neg hp', if_neg fun hboth => hp' hboth.2, eq_comm,
        h.received_eq_self_iff hc]
      exact ⟨fun hs => ⟨fun _ => hs, fun hq => absurd hq hp'⟩, fun hs => hs.1 hp⟩
  · by_cases hp' : c.port = p'.miptpHeader.port
    · rw [if_neg hp, if_pos hp', if_neg fun hboth => hp hboth.1, h.received_eq_self_iff hc]
      exact ⟨fun hs => ⟨fun hq => absurd hq hp, fun _ => hs⟩, fun hs => hs.2 hp'⟩
    · rw [if_neg hp, if_neg hp', if_neg fun hboth => hp hboth.1]
      exact iff_of_true rfl ⟨fun hq => absurd hq hp, fun hq => absurd hq hp'⟩

end AppConnection

/-! ## agreement -/

namespace MIPTPServer

/-- the states of the daemon -/
def Reachable (s : MIPTPServer) : Prop :=
  Reach (fun r => r = .ok create) (fun r r' => ∃ ev, MIPTPStep r ev r') (.ok s)

theorem Reachable.wellFormed {s : MIPTPServer} (h : s.Reachable) : s.WellFormed 65535 := by
  refine Reach.invariant (I := WellFormedState 65535) ?_ ?_ h s rfl
  · intro r hr
    rw [hr]
    exact wellFormedState_create 65535
  · intro r r' _ hr hstep
    obtain ⟨ev, s, rfl, _, rfl⟩ := hstep
    exact hr.step (s.within_max ev)

/-- `memory` gives the bytes that can be read from an address on; if neither package can be read
there, both sides are the same fault, which counts as agreement -/
def Agrees (s : MIPTPServer) (m : MIPDMessage) (memory : ℕ → List UInt8) : Prop :=
  (s.handleEvent (.mipd m.sent memory)).map (fun x => x.1.appController)
    = (s.appController.handleMipdPackage m.mipAddress (UInt16.ofNat m.data.length) m.data).map
      fun x => x.2

/-- **The condition**: `MIPTPPackage_deserialize` reads a package from what is taken for the data,
and one from the data, and they do the same to every sender; or it can read neither, and the daemon
reads outside what is there in either case. -/
def SameMeaning (s : MIPTPServer) (m : MIPDMessage) (memory : ℕ → List UInt8) : Prop :=
  match MIPTPPackage.deserialize m.data (UInt16.ofNat m.data.length),
    MIPTPPackage.deserialize (memory m.misreadPointer) m.misreadSize with
  | .ok p, .ok p' => ∀ c ∈ s.connections, c.status = .CONN_SENDER → c.SameEffect p p'
  | .error _, .error _ => True
  | _, _ => False

theorem sameMeaning_iff (s : MIPTPServer) {m : MIPDMessage} {memory : ℕ → List UInt8}
    {p p' : MIPTPPackage}
    (hp : MIPTPPackage.deserialize m.data (UInt16.ofNat m.data.length) = .ok p)
    (hp' : MIPTPPackage.deserialize (memory m.misreadPointer) m.misreadSize = .ok p') :
    s.SameMeaning m memory ↔ ∀ c ∈ s.connections, c.status = .CONN_SENDER → c.SameEffect p p' := by
  unfold SameMeaning
  rw [hp, hp']

/-- the event, by what is read from the memory -/
theorem handleEvent_sent_controller {s : MIPTPServer} {limit : ℕ} (h : s.WellFormed limit)
    (m : MIPDMessage) (memory : ℕ → List UInt8) :
    (s.handleEvent (.mipd m.sent memory)).map (fun x => x.1.appController)
      = (MIPTPPackage.deserialize (memory m.misreadPointer) m.misreadSize).map fun package =>
        { s.appController with
          connections := s.connections.map (AppConnection.dispatched package) } := by
  rw [handleEvent_sent, MIPTPAppController.WellFormed.handleMipdPackage_eq h]
  cases MIPTPPackage.deserialize (memory m.misreadPointer) m.misreadSize with
  | error f => rfl
  | ok package => rfl

/-- **When the daemons agree**, in every state that miptpd reaches and for every message. -/
theorem agrees_iff {s : MIPTPServer} (hs : s.Reachable) (m : MIPDMessage)
    (memory : ℕ → List UInt8) : s.Agrees m memory ↔ s.SameMeaning m memory := by
  have h := hs.wellFormed
  rw [Agrees, handleEvent_sent_controller h, MIPTPAppController.WellFormed.handleMipdPackage_eq h]
  cases hp : MIPTPPackage.deserialize m.data (UInt16.ofNat m.data.length) with
  | error f =>
    cases hp' : MIPTPPackage.deserialize (memory m.misreadPointer) m.misreadSize with
    | error f' =>
      obtain rfl := MIPTPPackage.deserialize_eq_error hp
      obtain rfl := MIPTPPackage.deserialize_eq_error hp'
      refine iff_of_true rfl ?_
      rw [SameMeaning, hp, hp']
      trivial
    | ok p' =>
      refine iff_of_false nofun ?_
      rw [SameMeaning, hp, hp']
      exact id
  | ok p =>
    cases hp' : MIPTPPackage.deserialize (memory m.misreadPointer) m.misreadSize with
    | error f' =>
      refine iff_of_false nofun ?_
      rw [SameMeaning, hp, hp']
      exact id
    | ok p' =>
      rw [sameMeaning_iff s hp hp']
      have hmap : s.connections.map (AppConnection.dispatched p')
          = s.connections.map (AppConnection.dispatched p) ↔
          ∀ c ∈ s.connections, c.status = .CONN_SENDER → c.SameEffect p p' := by
        rw [List.map_inj_left]
        exact forall₂_congr fun c hc => (h c hc).dispatched_eq_iff p p'
      refine Iff.trans ⟨fun heq => ?_, fun heq => ?_⟩ hmap
      · exact congrArg MIPTPAppController.connections (Except.ok.inj heq)
      · exact congrArg (fun connections => Except.ok { s.appController with connections }) heq

theorem reachable_oneSender : oneSender.Reachable := by
  have hconnected : oneClient.Reachable :=
    Reach.next (Reach.start rfl) ⟨.connect 7, create, rfl, nofun, rfl⟩
  refine Reach.next hconnected ⟨.application 7 senderBytes 0, oneClient, rfl, nofun, ?_⟩
  rw [handleEvent_senderBytes]
  rfl

/-- number 1 for port 10 from the host 5; of the data behind it, miptpd makes an address -/
def numberOne : MIPDMessage := ⟨5, [40, 0, 1, 0, 0, 64, 1, 85, 85, 85, 85, 0, 0, 0, 0, 0], by decide⟩

/-- at that address there is another package with the number, for the same port; nothing else can be
read -/
def otherPackage (address : ℕ) : List UInt8 :=
  if address = numberOne.misreadPointer then [40, 0, 1, 0] ++ List.replicate 10236 7 else []

theorem agrees_oneSender : oneSender.Agrees numberOne otherPackage := by
  have hp : MIPTPPackage.deserialize numberOne.data (UInt16.ofNat numberOne.data.length)
      = .ok ⟨⟨0, 10, 1⟩, numberOne.data.drop 4⟩ := by decide
  have hp' : MIPTPPackage.deserialize (otherPackage numberOne.misreadPointer) numberOne.misreadSize
      = .ok ⟨⟨0, 10, 1⟩, List.replicate 10236 7⟩ := by
    have hsize : numberOne.misreadSize = 10240 := by decide
    have hfits : 4 + (10240 - 4 : UInt16).toNat
        ≤ ([40, 0, 1, 0] ++ List.replicate 10236 (7 : UInt8)).length := by
      rw [List.length_append, List.length_replicate]
      decide
    have hdata : ([40, 0, 1, 0] ++ List.replicate 10236 (7 : UInt8)).drop 4
        = List.replicate 10236 7 := rfl
    rw [hsize, otherPackage, if_pos rfl, MIPTPPackage.deserialize, if_pos hfits, hdata,
      List.take_replicate]
    rfl
  rw [agrees_iff reachable_oneSender, sameMeaning_iff oneSender hp hp']
  intro c hc _
  obtain rfl := List.mem_singleton.mp hc
  rw [AppConnection.SameEffect, if_pos ⟨rfl, rfl⟩]
  exact Or.inl rfl

/-- **An acknowledgement from mipd**: its four bytes of data end in front of byte 8, so miptpd reads
10240 bytes from address 0. -/
theorem acknowledgement_misread :
    ¬ ∀ s : MIPTPServer, s.Reachable → ∀ (m : MIPDMessage) (memory : ℕ → List UInt8),
      s.Agrees m memory := by
  intro hall
  have hagrees := hall create (Reach.start rfl) ⟨110, [40, 0, 0, 0], by decide⟩ fun _ => []
  rw [Agrees, handleEvent_sent_controller (wellFormed_create 0)] at hagrees
  cases hagrees

end MIPTPServer

end MipStack
