import MipStack.Miptpd.AppController

/-!
# The registration of a client (`MIPTPAppController_handle_app_package`)

* `Request package`    what a client may ask for: a port of 14 bits, a destination, one of two types;
* `Serves package c c'`   `c'` is the connection that the client on `c` has asked for;
* `AsAsked`            such a request is granted, a refused one changes nothing, and a transfer that
                       is running stays;
* `Registrable`        nobody who waits asks for a receiver, and nobody who is served asks for more;
* `as_asked_iff`       **a package is handled as it should be exactly where it is registrable**;
* `registration_fails` a receiver is refused, and a second package ends the transfer of the first.
-/

namespace MipStack
open Library

/-- the types are those that the enumeration names -/
structure Request (package : ClientPackage) : Prop where
  port : package.port > 0
  port_le : package.port.toNat ≤ 16383
  destination : package.destination > 0
  type : package.type = .MIPTP_SENDER ∨ package.type = .MIPTP_RECEIVER

namespace AppConnection

def Running (c : AppConnection) : Prop := c.status = .CONN_SENDER ∨ c.status = .CONN_RECEIVER

/-- each kind of connection has its own job only -/
structure Serves (package : ClientPackage) (c c' : AppConnection) : Prop where
  socket : c'.socket = c.socket
  port : c'.port.toNat = package.port.toNat
  destination : c'.connectedMip = package.destination
  sender : package.type = .MIPTP_SENDER → c'.status = .CONN_SENDER ∧ c'.rJob = none ∧
    ∃ job, c'.sJob = some job ∧ job.data = package.data
  receiver : package.type = .MIPTP_RECEIVER → c'.status = .CONN_RECEIVER ∧ c'.sJob = none ∧
    c'.rJob.isSome

end AppConnection

namespace MIPTPAppController

/-- **What registration is for**, of the result of the handler. -/
structure AsAsked (controller : MIPTPAppController) (socket : ℕ) (package : ClientPackage)
    (result : Except Fault (ℤ × MIPTPAppController)) : Prop where
  registers : ∀ c, lookup AppConnection.socket socket controller.connections = some c →
    c.status = .CONN_NOT_READY → Request package →
    ∃ before after c' controller', controller.connections = before ++ c :: after ∧
      result = .ok (1, controller') ∧ controller'.connections = before ++ after ++ [c'] ∧
      c.Serves package c'
  refuses : ∀ controller', result = .ok (-1, controller') →
    controller'.connections = controller.connections
  keeps : ∀ c, lookup AppConnection.socket socket controller.connections = some c → c.Running →
    ∀ x, result = .ok x → c ∈ x.2.connections

/-- **The condition**, where port and destination are not 0: who is not ready asks for no receiver, or
for a port that has no 14 bits; and who has a transfer running asks for a receiver, or for the very
connection that is there, unless the list holds this twice. -/
def Registrable (controller : MIPTPAppController) (socket : ℕ) (package : ClientPackage)
    (now : ℤ) : Prop :=
  ∀ c, lookup AppConnection.socket socket controller.connections = some c →
    package.port > 0 → package.destination > 0 →
    (c.status = .CONN_NOT_READY → package.port.toNat ≤ 16383 → package.type ≠ .MIPTP_RECEIVER) ∧
    (c.Running → package.type = .MIPTP_RECEIVER ∨
      c ∈ erase AppConnection.socket socket controller.connections ∨
      controller.requested socket package now = some c)

variable {controller : MIPTPAppController} {socket : ℕ} {sPackage : List UInt8}
  {package : ClientPackage} {c : AppConnection}

/-- a sender is made as it is asked for -/
theorem serves_of_requested (hr : Request package) (htype : package.type = .MIPTP_SENDER)
    (hc : c.socket = socket) {c' : AppConnection} {now : ℤ}
    (h : controller.requested socket package now = some c') : c.Serves package c' := by
  rw [requested, htype] at h
  obtain rfl := Option.some.inj h
  refine ⟨hc.symm, ?_, rfl, fun _ => ⟨rfl, rfl, _, rfl, rfl⟩, fun hreceiver => ?_⟩
  · show (BitVec.ofNat 14 package.port.toNat).toNat = _
    rw [BitVec.toNat_ofNat]
    have hle := hr.port_le
    exact Nat.mod_eq_of_lt (by omega)
  · rw [htype] at hreceiver
    cases hreceiver

/-! ## the condition, case by case -/

theorem asAsked_unchecked (hp : ClientPackage.deserialize sPackage = .ok package)
    (h : ¬ (package.port > 0 ∧ package.destination > 0)) (now : ℤ) :
    controller.AsAsked socket package (controller.handleAppPackage socket sPackage now) := by
  rw [handleAppPackage_unchecked hp h]
  refine ⟨fun c _ _ hr => absurd ⟨hr.port, hr.destination⟩ h, fun controller' heq => ?_,
    fun c hc _ x hx => ?_⟩
  · obtain ⟨_, rfl⟩ := Prod.mk.inj (Except.ok.inj heq)
    rfl
  · obtain rfl := Except.ok.inj hx
    exact mem_of_lookup hc

theorem asAsked_unlisted (hp : ClientPackage.deserialize sPackage = .ok package)
    (h : package.port > 0 ∧ package.destination > 0)
    (hc : lookup AppConnection.socket socket controller.connections = none) (now : ℤ) :
    controller.AsAsked socket package (controller.handleAppPackage socket sPackage now) := by
  have hnone : ∀ c, lookup AppConnection.socket socket controller.connections ≠ some c := by
    intro c hsome
    rw [hc] at hsome
    cases hsome
  rw [handleAppPackage_unlisted hp h hc]
  refine ⟨fun c hsome => absurd hsome (hnone c), fun controller' heq => ?_,
    fun c hsome => absurd hsome (hnone c)⟩
  obtain ⟨hrc, _⟩ := Prod.mk.inj (Except.ok.inj heq)
  cases hrc

/-- a receiver is asked for, and refused -/
theorem asAsked_refused_iff (h : package.port > 0 ∧ package.destination > 0)
    (htype : package.type = .MIPTP_RECEIVER) (now : ℤ) :
    controller.AsAsked socket package (.ok (-1, controller)) ↔
      controller.Registrable socket package now := by
  constructor
  · intro hasked c hc _ _
    refine ⟨fun hready hle => ?_, fun _ => Or.inl htype⟩
    obtain ⟨_, _, _, _, _, hresult, _⟩ := hasked.registers c hc hready ⟨h.1, hle, h.2, Or.inr htype⟩
    cases hresult
  · intro hcond
    refine ⟨fun c hc hready hr => ?_, fun controller' heq => ?_, fun c hc _ x hx => ?_⟩
    · exact absurd htype ((hcond c hc hr.port hr.destination).1 hready hr.port_le)
    · obtain ⟨_, rfl⟩ := Prod.mk.inj (Except.ok.inj heq)
      rfl
    · obtain rfl := Except.ok.inj hx
      exact mem_of_lookup hc

/-- another connection is asked for, and takes the place of the one that is found -/
theorem asAsked_granted_iff (h : package.port > 0 ∧ package.destination > 0) {now : ℤ}
    {complete : AppConnection} (hrequested : controller.requested socket package now = some complete) :
    controller.AsAsked socket package (.ok (1, { controller with
        connections := put AppConnection.socket complete controller.connections })) ↔
      controller.Registrable socket package now := by
  obtain ⟨rfl, _⟩ := AppConnection.create_eq_some hrequested
  have htype : package.type ≠ .MIPTP_RECEIVER := by
    intro htype
    rw [(controller.requested_eq_none_iff _ package now).mpr htype] at hrequested
    cases hrequested
  have hmem : ∀ d, d ∈ put AppConnection.socket complete controller.connections ↔
      d ∈ erase AppConnection.socket complete.socket controller.connections ∨
        controller.requested complete.socket package now = some d := by
    intro d
    rw [hrequested, put, List.mem_append, List.mem_singleton, Option.some_inj, eq_comm (a := d)]
  constructor
  · intro hasked d hd _ _
    refine ⟨fun _ _ => htype, fun hrunning => Or.inr ?_⟩
    exact (hmem d).mp (hasked.keeps d hd hrunning _ rfl)
  · intro hcond
    refine ⟨fun d hd _ hr => ?_, fun controller' heq => ?_, fun d hd hrunning x hx => ?_⟩
    · obtain ⟨before, after, hlist, _, herase⟩ := exists_append_of_lookup hd
      refine ⟨before, after, complete, _, hlist, rfl, ?_, ?_⟩
      · rw [← herase]
        rfl
      · exact serves_of_requested hr (hr.type.resolve_right htype) (key_of_lookup hd) hrequested
    · obtain ⟨hrc, _⟩ := Prod.mk.inj (Except.ok.inj heq)
      cases hrc
    · obtain rfl := Except.ok.inj hx
      exact (hmem d).mpr (((hcond d hd h.1 h.2).2 hrunning).resolve_left htype)

/-- **When a package of a client is handled as it should be.** -/
theorem as_asked_iff (controller : MIPTPAppController) (socket : ℕ) {sPackage : List UInt8}
    {package : ClientPackage} (hp : ClientPackage.deserialize sPackage = .ok package) (now : ℤ) :
    controller.AsAsked socket package (controller.handleAppPackage socket sPackage now) ↔
      controller.Registrable socket package now := by
  by_cases hchecks : package.port > 0 ∧ package.destination > 0
  swap
  · exact iff_of_true (asAsked_unchecked hp hchecks now)
      fun c _ hport hdestination => absurd ⟨hport, hdestination⟩ hchecks
  cases hc : lookup AppConnection.socket socket controller.connections with
  | none =>
    refine iff_of_true (asAsked_unlisted hp hchecks hc now) fun c hsome => ?_
    rw [hc] at hsome
    cases hsome
  | some c =>
    cases hrequested : controller.requested socket package now with
    | none =>
      rw [handleAppPackage_refused hp hchecks hc hrequested]
      exact asAsked_refused_iff hchecks
        ((controller.requested_eq_none_iff socket package now).mp hrequested) now
    | some complete =>
      rw [handleAppPackage_replaced hp hchecks hc hrequested]
      exact asAsked_granted_iff hchecks hrequested

/-! ## two clients on socket 7 -/

/-- a client that has only connected -/
def waitingClient : MIPTPAppController := ⟨[⟨16383, 7, 0, .CONN_NOT_READY, none, none⟩], 10, 0⟩

/-- a client that sends one byte to port 10 of the address 5 -/
def servedClient : MIPTPAppController :=
  ⟨[⟨10, 7, 5, .CONN_SENDER, some (MIPTPSendJob.create 10 5 oneByte 0 0), none⟩], 10, 0⟩

/-- the same for port 11 -/
def oneByteRequest : ClientPackage := ⟨11, 5, .MIPTP_SENDER, oneByte⟩

def receiverRequest : ClientPackage := ⟨10, 5, .MIPTP_RECEIVER, JobData.empty⟩

theorem as_asked_sender : waitingClient.AsAsked 7 oneByteRequest
    (waitingClient.handleAppPackage 7 [11, 0, 5, 1, 0, 0, 0, 1, 0, 65] 0) := by
  refine (as_asked_iff waitingClient 7 rfl 0).mpr fun c hc _ _ => ?_
  obtain rfl := Option.some.inj hc
  exact ⟨fun _ _ => by decide, fun hrunning => by rcases hrunning with h | h <;> cases h⟩

/-- **A receiver is refused, and a second package ends the transfer of the first.** -/
theorem registration_fails :
    ClientPackage.deserialize [10, 0, 5, 2, 0, 0, 0, 0, 0] = .ok receiverRequest ∧
    ¬ waitingClient.AsAsked 7 receiverRequest
      (waitingClient.handleAppPackage 7 [10, 0, 5, 2, 0, 0, 0, 0, 0] 0) ∧
    ClientPackage.deserialize [11, 0, 5, 1, 0, 0, 0, 1, 0, 65] = .ok oneByteRequest ∧
    ¬ servedClient.AsAsked 7 oneByteRequest
      (servedClient.handleAppPackage 7 [11, 0, 5, 1, 0, 0, 0, 1, 0, 65] 0) := by
  refine ⟨rfl, fun h => ?_, rfl, fun h => ?_⟩
  · obtain ⟨_, _, _, _, _, hresult, _⟩ := h.registers _ rfl rfl ⟨by decide, by decide, by decide, Or.inr rfl⟩
    cases hresult
  · have hkept := h.keeps _ rfl (Or.inl rfl) _ rfl
    exact absurd hkept (by decide)

end MIPTPAppController

end MipStack
