import MipStack.Miptpd.AppController

/-!
# What moves a transfer (`MIPTPAppController_handle_mipd_package`)

* `Genuine`                an acknowledgement of a package that was sent, from the connected host;
* `Stays`                  a sender keeps its job and its status;
* `Settled`                the number of the package is no news to the job, which is not complete;
* `Dispatched`             the loop over the connections gets to a connection;
* `stays_iff`              a sender with the port stays exactly when the package finds it settled;
* `deliver_iff`, `moved_genuinely_iff`   **only genuine acknowledgements move senders exactly where
                           every sender with the port gets a genuine one or is settled**;
* `stranger_moves`         data from another host moves a transfer to its end.
-/

namespace MipStack

namespace AppConnection

/-- `sent` tells the numbers that each job has sent, of which miptpd keeps no record -/
structure Genuine (sent : AppConnection → UInt16 → Prop) (mipAddress : MIPAddress)
    (package : MIPTPPackage) (c : AppConnection) : Prop where
  ack : package.IsAck
  sent : sent c package.miptpHeader.PSN
  sender : mipAddress = c.connectedMip

/-- job and status are as before -/
def Stays (c c' : AppConnection) : Prop := c'.sJob = c.sJob ∧ c'.status = c.status

def Settled (package : MIPTPPackage) (c : AppConnection) : Prop :=
  ∀ job, c.sJob = some job →
    package.miptpHeader.PSN ≤ job.slidingWindow.sequenceBase ∧ job.isComplete = false

/-- a receiver that is past its connection and not complete fails on every package -/
structure Fails (package : MIPTPPackage) (c : AppConnection) : Prop where
  port : c.port = package.miptpHeader.port
  status : c.status = .CONN_RECEIVER
  job : ∃ job, c.rJob = some job ∧ job.status ≠ .RJOB_WAITING_FOR_CONNECTION ∧
    job.isComplete = false

end AppConnection

/-! ## one connection -/

theorem SlidingWindow.update_eq_self_iff (w : SlidingWindow) (s : UInt16) :
    w.update s = w ↔ s ≤ w.sequenceBase := by
  constructor
  · intro h
    have hbase := w.sequenceBase_update s
    rw [h] at hbase
    exact UInt16.le_iff_toNat_le.mpr (by omega)
  · intro h
    have hnot : ¬ s > w.sequenceBase := fun hlt => by
      have hnat := UInt16.lt_iff_toNat_lt.mp hlt
      have hle := UInt16.le_iff_toNat_le.mp h
      omega
    rw [update, if_neg hnot]

theorem MIPTPSendJob.receivePackage_eq_self_iff (job : MIPTPSendJob) (package : MIPTPPackage) :
    job.receivePackage package = job ↔
      package.miptpHeader.PSN ≤ job.slidingWindow.sequenceBase := by
  rw [← SlidingWindow.update_eq_self_iff]
  constructor
  · intro h
    exact congrArg MIPTPSendJob.slidingWindow h
  · intro h
    rw [receivePackage, h]

theorem MIPTPReceiveJob.receivePackage_fails_iff (job : MIPTPReceiveJob) (sender : MIPAddress)
    (package : MIPTPPackage) :
    (job.receivePackage sender package).1 = -1 ↔
      job.status ≠ .RJOB_WAITING_FOR_CONNECTION ∧ job.isComplete = false := by
  have hone : ¬ (1 : ℤ) = -1 := by decide
  unfold receivePackage
  split
  · rename_i hstatus
    exact iff_of_false hone fun h => h.1 hstatus
  · rename_i hstatus
    split
    · rename_i hcomplete
      exact iff_of_false hone fun h => Bool.eq_false_iff.mp h.2 hcomplete
    · rename_i hcomplete
      exact iff_of_true rfl ⟨hstatus, Bool.eq_false_iff.mpr hcomplete⟩

namespace AppConnection
variable {mipAddress : MIPAddress} {package : MIPTPPackage} {c c' : AppConnection} {rc : ℤ}

theorem eq_one_of_not_receiver (h : c.receivePackage mipAddress package = .ok (rc, c'))
    (hstatus : c.status ≠ .CONN_RECEIVER) : rc = 1 := by
  obtain ⟨port, socket, connectedMip, status, sJob, rJob⟩ := c
  cases status with
  | CONN_SENDER =>
    cases sJob with
    | none => cases h
    | some job => exact (Prod.mk.inj (Except.ok.inj h)).1.symm
  | CONN_RECEIVER => exact absurd rfl hstatus
  | CONN_NOT_READY => exact (Prod.mk.inj (Except.ok.inj h)).1.symm
  | CONN_COMPLETE => exact (Prod.mk.inj (Except.ok.inj h)).1.symm
  | CONN_FINISHED => exact (Prod.mk.inj (Except.ok.inj h)).1.symm

/-- **The return code is -1 exactly for a receiver that fails.** -/
theorem fails_iff (h : c.receivePackage mipAddress package = .ok (rc, c'))
    (hport : c.port = package.miptpHeader.port) : rc = -1 ↔ c.Fails package := by
  by_cases hstatus : c.status = .CONN_RECEIVER
  · obtain ⟨port, socket, connectedMip, status, sJob, rJob⟩ := c
    obtain rfl : status = .CONN_RECEIVER := hstatus
    cases rJob with
    | none => cases h
    | some job =>
      have hrc : rc = -1 ↔ (job.receivePackage mipAddress package).1 = -1 := by
        simp only [AppConnection.receivePackage] at h
        split at h
        · rename_i hfails
          obtain ⟨rfl, _⟩ := Prod.mk.inj (Except.ok.inj h)
          exact iff_of_true rfl hfails
        · rename_i hfails
          obtain ⟨rfl, _⟩ := Prod.mk.inj (Except.ok.inj h)
          exact iff_of_false (by decide) hfails
      rw [hrc, job.receivePackage_fails_iff]
      constructor
      · exact fun hjob => ⟨hport, rfl, job, rfl, hjob⟩
      · rintro ⟨_, _, job', hjob, hfails⟩
        rw [Option.some.inj hjob]
        exact hfails
  · obtain rfl := eq_one_of_not_receiver h hstatus
    exact iff_of_false (by decide) fun hf => hstatus hf.status

/-- **A sender keeps its job and its status exactly when the package finds it settled.** -/
theorem stays_iff (h : c.receivePackage mipAddress package = .ok (rc, c'))
    (hstatus : c.status = .CONN_SENDER) : Stays c c' ↔ Settled package c := by
  obtain ⟨port, socket, connectedMip, status, sJob, rJob⟩ := c
  obtain rfl : status = .CONN_SENDER := hstatus
  cases sJob with
  | none => cases h
  | some job =>
    obtain ⟨_, rfl⟩ := Prod.mk.inj (Except.ok.inj h)
    have hjob : some (job.receivePackage package) = some job ↔
        package.miptpHeader.PSN ≤ job.slidingWindow.sequenceBase := by
      rw [Option.some_inj, job.receivePackage_eq_self_iff]
    have hkept : ∀ b : Bool, (if b = true then AppConnectionStatus.CONN_COMPLETE else .CONN_SENDER)
        = .CONN_SENDER ↔ b = false := by decide
    show some (job.receivePackage package) = some job ∧ (if (job.receivePackage package).isComplete
      = true then AppConnectionStatus.CONN_COMPLETE else .CONN_SENDER) = .CONN_SENDER ↔ _
    rw [hkept, hjob]
    constructor
    · rintro ⟨hle, hcomplete⟩ job' hjob'
      obtain rfl := Option.some.inj hjob'
      rw [(job.receivePackage_eq_self_iff package).mpr hle] at hcomplete
      exact ⟨hle, hcomplete⟩
    · intro hsettled
      obtain ⟨hle, hcomplete⟩ := hsettled job rfl
      rw [(job.receivePackage_eq_self_iff package).mpr hle]
      exact ⟨hle, hcomplete⟩

end AppConnection

/-! ## all connections -/

namespace MIPTPAppController

/-- the loop gets to the connection `c`: no receiver before it fails -/
inductive Dispatched (package : MIPTPPackage) : List AppConnection → AppConnection → Prop
  | here (c : AppConnection) (rest : List AppConnection) : Dispatched package (c :: rest) c
  | next {c d : AppConnection} {rest : List AppConnection} (hc : ¬ c.Fails package)
      (h : Dispatched package rest d) : Dispatched package (c :: rest) d

/-- a sender is moved by a genuine acknowledgement only -/
def MovedGenuinely (sent : AppConnection → UInt16 → Prop) (mipAddress : MIPAddress)
    (package : MIPTPPackage) (c c' : AppConnection) : Prop :=
  c.status = .CONN_SENDER → ¬ c.Genuine sent mipAddress package → c.Stays c'

/-- **The condition**: each sender with the port gets a genuine acknowledgement, or the number of
the package is not above its base and its job is not complete. -/
def GenuineOrSettled (sent : AppConnection → UInt16 → Prop) (mipAddress : MIPAddress)
    (package : MIPTPPackage) (c : AppConnection) : Prop :=
  c.status = .CONN_SENDER → c.port = package.miptpHeader.port →
    c.Genuine sent mipAddress package ∨ c.Settled package

variable {sent : AppConnection → UInt16 → Prop} {mipAddress : MIPAddress} {package : MIPTPPackage}

theorem forall_dispatched_cons {P : AppConnection → Prop} {c : AppConnection}
    {rest : List AppConnection} :
    (∀ d, Dispatched package (c :: rest) d → P d) ↔
      P c ∧ (¬ c.Fails package → ∀ d, Dispatched package rest d → P d) := by
  constructor
  · intro h
    exact ⟨h c (.here c rest), fun hc d hd => h d (.next hc hd)⟩
  · rintro ⟨hc, hrest⟩ d hd
    cases hd with
    | here => exact hc
    | next hnot hd => exact hrest hnot d hd

theorem movedGenuinely_refl (c : AppConnection) : MovedGenuinely sent mipAddress package c c :=
  fun _ _ => ⟨rfl, rfl⟩

theorem movedGenuinely_iff {c c' : AppConnection} {rc : ℤ}
    (h : c.receivePackage mipAddress package = .ok (rc, c'))
    (hport : c.port = package.miptpHeader.port) :
    MovedGenuinely sent mipAddress package c c' ↔ GenuineOrSettled sent mipAddress package c := by
  refine imp_congr_right fun hstatus => ?_
  rw [AppConnection.stays_iff h hstatus, ← or_iff_not_imp_left]
  exact ⟨fun hor _ => hor, fun hor => hor hport⟩

theorem forall₂_refl (connections : List AppConnection) :
    List.Forall₂ (MovedGenuinely sent mipAddress package) connections connections :=
  List.forall₂_same.mpr fun c _ => movedGenuinely_refl c

theorem deliver_iff {connections connections' : List AppConnection} {rc : ℤ}
    (h : deliver mipAddress package connections = .ok (rc, connections')) :
    List.Forall₂ (MovedGenuinely sent mipAddress package) connections connections' ↔
      ∀ c, Dispatched package connections c → GenuineOrSettled sent mipAddress package c := by
  induction connections generalizing rc connections' with
  | nil =>
    obtain ⟨_, rfl⟩ := Prod.mk.inj (Except.ok.inj h)
    exact iff_of_true List.Forall₂.nil fun c hc => by cases hc
  | cons c rest ih =>
    rw [forall_dispatched_cons]
    unfold deliver at h
    split at h
    · rename_i hport
      split at h
      · cases h
      · rename_i rc₁ c₁ hreceive
        have hmoved : MovedGenuinely sent mipAddress package c c₁ ↔
            GenuineOrSettled sent mipAddress package c := movedGenuinely_iff hreceive hport
        have hfails := AppConnection.fails_iff hreceive hport
        split at h
        · rename_i hrc
          -- the loop ends here, and the other connections stay as they are
          obtain ⟨_, rfl⟩ := Prod.mk.inj (Except.ok.inj h)
          rw [List.forall₂_cons, hmoved, and_iff_left (forall₂_refl rest)]
          exact (and_iff_left fun hnot => absurd (hfails.mp hrc) hnot).symm
        · rename_i hrc
          obtain ⟨x, hx, heq⟩ := map_eq_ok_iff.mp h
          obtain ⟨_, rfl⟩ := Prod.mk.inj heq
          rw [List.forall₂_cons, hmoved, ih hx]
          exact and_congr_right fun _ => (imp_iff_right (mt hfails.mpr hrc)).symm
    · rename_i hport
      obtain ⟨x, hx, heq⟩ := map_eq_ok_iff.mp h
      obtain ⟨_, rfl⟩ := Prod.mk.inj heq
      have hhead : GenuineOrSettled sent mipAddress package c := fun _ hp => absurd hp hport
      have hnot : ¬ c.Fails package := fun hf => hport hf.port
      rw [List.forall₂_cons, ih hx, imp_iff_right hnot]
      exact and_congr_left fun _ => iff_of_true (movedGenuinely_refl c) hhead

/-- **Which packages move senders genuinely**, whatever the jobs have sent: those for which every
sender with the port, up to a receiver that fails, gets a genuine acknowledgement or is settled. -/
theorem moved_genuinely_iff (sent : AppConnection → UInt16 → Prop)
    {controller controller' : MIPTPAppController} {mipAddress : MIPAddress} {dataSize : UInt16}
    {data : List UInt8} {package : MIPTPPackage} {rc : ℤ}
    (hp : MIPTPPackage.deserialize data dataSize = .ok package)
    (h : controller.handleMipdPackage mipAddress dataSize data = .ok (rc, controller')) :
    List.Forall₂ (MovedGenuinely sent mipAddress package) controller.connections
        controller'.connections ↔
      ∀ c, Dispatched package controller.connections c →
        GenuineOrSettled sent mipAddress package c := by
  unfold handleMipdPackage at h
  rw [hp] at h
  obtain ⟨x, hx, heq⟩ := map_eq_ok_iff.mp h
  obtain ⟨_, rfl⟩ := Prod.mk.inj heq
  exact deliver_iff hx

/-! ## a stranger -/

/-- a sender of two packages to the host 110, nothing received yet -/
def twoPackagesSender : AppConnection :=
  ⟨10, 7, 110, .CONN_SENDER, some (MIPTPSendJob.create 10 110
    ⟨List.replicate 1493 65, by rw [List.length_replicate]; decide⟩ 1000 0), none⟩

def twoPackagesController : MIPTPAppController := ⟨[twoPackagesSender], 10, 0⟩

/-- the host acknowledges package 0, which has been sent -/
theorem moved_genuinely_iff_ack : ∃ rc controller',
    twoPackagesController.handleMipdPackage 110 4 [40, 0, 0, 0] = .ok (rc, controller') ∧
      List.Forall₂ (MovedGenuinely (fun _ s => s = 0) 110 ⟨⟨0, 10, 0⟩, []⟩)
        twoPackagesController.connections controller'.connections := by
  have hp : MIPTPPackage.deserialize [40, 0, 0, 0] 4 = .ok ⟨⟨0, 10, 0⟩, []⟩ := rfl
  obtain ⟨x, hx⟩ : ∃ x, twoPackagesController.handleMipdPackage 110 4 [40, 0, 0, 0] = .ok x :=
    ⟨_, rfl⟩
  refine ⟨x.1, x.2, hx, (moved_genuinely_iff (fun _ s => s = 0) hp hx).mpr fun c hc _ _ => ?_⟩
  cases hc with
  | here => exact Or.inl ⟨rfl, rfl, rfl⟩
  | next _ hd => cases hd

/-- **A byte of data numbered 1 from the host 99** moves the window to the last package. -/
theorem stranger_moves :
    ¬ ∀ (sent : AppConnection → UInt16 → Prop) (controller controller' : MIPTPAppController)
      (mipAddress : MIPAddress) (dataSize : UInt16) (data : List UInt8) (package : MIPTPPackage)
      (rc : ℤ), MIPTPPackage.deserialize data dataSize = .ok package →
      controller.handleMipdPackage mipAddress dataSize data = .ok (rc, controller') →
      List.Forall₂ (MovedGenuinely sent mipAddress package) controller.connections
        controller'.connections := by
  intro hall
  have hmoved := hall (fun _ _ => True) twoPackagesController _ 99 5 [40, 0, 1, 0, 7] _ _ rfl rfl
  have hstays := (List.forall₂_cons.mp hmoved).1 rfl fun hg => nomatch hg.ack
  have hle := (MIPTPSendJob.receivePackage_eq_self_iff _ _).mp (Option.some.inj hstays.1)
  exact absurd hle (by decide)

end MIPTPAppController

end MipStack
