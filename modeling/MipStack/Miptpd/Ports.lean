import MipStack.Miptpd.Acknowledgement
import MipStack.Miptpd.Bookkeeping

/-!
# Ports and the clients behind them (`miptp_app_controller.c`)

Clients register ports of 16 bits, of which connections and packages hold 14.

* `Handed`          the loop gives the package to a connection;
* `RegisteredFor`   the client of a connection has registered the port of the package;
* `Separated`       a package from mipd is handed to the connections registered for it, and no others;
* `PortsClear`      whoever has the port of the package in 14 bits has registered it, below 16384;
* `dispatched_iff_mem`   no connection fails, so the loop gets to all of them;
* `ports_separate_iff`   **ports separate clients exactly as long as they are clear**;
* `port_collision`  a client on port 16394 gets what is for port 10.
-/

namespace MipStack
open Library

namespace MIPTPAppController

def Handed (package : MIPTPPackage) (connections : List AppConnection) (c : AppConnection) : Prop :=
  Dispatched package connections c ∧ c.port = package.miptpHeader.port

theorem Dispatched.mem {package : MIPTPPackage} {connections : List AppConnection} {c : AppConnection}
    (h : Dispatched package connections c) : c ∈ connections := by
  induction h with
  | here c rest => exact List.mem_cons_self
  | next _ _ ih => exact List.mem_cons_of_mem _ ih

/-- **Without receivers the loop gets to every connection.** -/
theorem dispatched_iff_mem {limit : ℕ} {connections : List AppConnection}
    (h : ∀ c ∈ connections, c.WellFormed limit) (package : MIPTPPackage) (c : AppConnection) :
    Dispatched package connections c ↔ c ∈ connections := by
  refine ⟨Dispatched.mem, fun hc => ?_⟩
  induction connections with
  | nil => cases hc
  | cons d rest ih =>
    obtain ⟨hd, hrest⟩ := List.forall_mem_cons.mp h
    rcases List.mem_cons.mp hc with rfl | hc
    · exact .here c rest
    · exact .next (fun hfails => hd.no_receiver hfails.status) (ih hrest hc)

end MIPTPAppController

namespace Clients

/-- the last package that was accepted from the client asks for a sender or a receiver on the port -/
def RegisteredFor (s : Clients) (package : MIPTPPackage) (c : AppConnection) : Prop :=
  ∃ request, s.registered c.socket = some request ∧
    (request.type = .MIPTP_SENDER ∨ request.type = .MIPTP_RECEIVER) ∧
    request.port.toNat = package.miptpHeader.port.toNat

/-- **What ports are for**, of each package that is delivered. -/
def Separated (s : Clients) : ControllerEvent → Prop
  | .mipd _ dataSize data => ∀ package, MIPTPPackage.deserialize data dataSize = .ok package →
    ∀ c ∈ s.connections,
      MIPTPAppController.Handed package s.connections c ↔ s.RegisteredFor package c
  | .connect _ _ => True
  | .application _ _ _ => True
  | .disconnect _ => True
  | .completes => True

/-- **The condition**: a connection with the port of the package belongs to a client that has
registered a port of 14 bits. -/
def PortsClear (s : Clients) : ControllerEvent → Prop
  | .mipd _ dataSize data => ∀ package, MIPTPPackage.deserialize data dataSize = .ok package →
    ∀ c ∈ s.connections, c.port = package.miptpHeader.port →
      ∃ request, s.registered c.socket = some request ∧
        (request.type = .MIPTP_SENDER ∨ request.type = .MIPTP_RECEIVER) ∧
        request.port.toNat < 16384
  | .connect _ _ => True
  | .application _ _ _ => True
  | .disconnect _ => True
  | .completes => True

variable {s : Clients} {package : MIPTPPackage} {c : AppConnection}

/-- a port below 16384 is stored as it is -/
theorem portOf_toNat {request : ClientPackage} (h : request.port.toNat < 16384) :
    (portOf (some request)).toNat = request.port.toNat := by
  show (BitVec.ofNat 14 request.port.toNat).toNat = _
  rw [BitVec.toNat_ofNat]
  exact Nat.mod_eq_of_lt h

/-- the port of the package has 14 bits, and so has a registered port that equals it -/
theorem RegisteredFor.port_eq (h : s.Consistent) (hc : c ∈ s.connections)
    (hreg : s.RegisteredFor package c) : c.port = package.miptpHeader.port := by
  obtain ⟨request, hrequest, _, hport⟩ := hreg
  have hlt : request.port.toNat < 16384 := hport ▸ package.miptpHeader.port.isLt
  apply BitVec.eq_of_toNat_eq
  rw [h.port c hc, hrequest, portOf_toNat hlt, hport]

theorem Consistent.handed_iff (h : s.Consistent) (hc : c ∈ s.connections) :
    MIPTPAppController.Handed package s.connections c ↔ c.port = package.miptpHeader.port :=
  and_iff_right ((MIPTPAppController.dispatched_iff_mem h.wellFormed package c).mpr hc)

/-- **One package is handed to the right clients exactly where its port is clear.** -/
theorem separated_iff (h : s.Consistent) (ev : ControllerEvent) :
    s.Separated ev ↔ s.PortsClear ev := by
  cases ev with
  | connect newSocket added => exact Iff.rfl
  | application socket sPackage now => exact Iff.rfl
  | disconnect socket => exact Iff.rfl
  | completes => exact Iff.rfl
  | mipd mipAddress dataSize data =>
    refine forall₂_congr fun package _ => forall₂_congr fun c hc => ?_
    rw [h.handed_iff hc]
    constructor
    · intro hiff hport
      obtain ⟨request, hrequest, htype, heq⟩ := hiff.mp hport
      exact ⟨request, hrequest, htype, heq ▸ package.miptpHeader.port.isLt⟩
    · intro hclear
      refine ⟨fun hport => ?_, RegisteredFor.port_eq h hc⟩
      obtain ⟨request, hrequest, htype, hlt⟩ := hclear hport
      refine ⟨request, hrequest, htype, ?_⟩
      rw [← hport, h.port c hc, hrequest, portOf_toNat hlt]

end Clients

/-! ## runs -/

def SeparatedStep : Except Fault Clients → ControllerEvent → Except Fault Clients → Prop
  | .ok s, ev, _ => s.Separated ev
  | .error _, _, _ => True

def PortsClearStep : Except Fault Clients → ControllerEvent → Prop
  | .ok s, ev => s.PortsClear ev
  | .error _, _ => True

/-- **How long ports separate clients**, in every run of the handlers. -/
theorem ports_separate_iff (maxConnections : ℕ) {tr : List (ControllerEvent × Except Fault Clients)}
    (hr : Run ClientsStep (.ok (Clients.start maxConnections)) tr) :
    Always SeparatedStep (.ok (Clients.start maxConnections)) tr ↔
      Meets PortsClearStep (.ok (Clients.start maxConnections)) tr := by
  refine Run.always_iff (I := ConsistentState) (fun r ev r' hI _ hstep => hI.step hstep)
    (fun r ev r' hI hstep => ?_) hr (consistentState_start maxConnections)
  obtain ⟨s, rfl, _, rfl⟩ := hstep
  exact Clients.separated_iff (hI s rfl) ev

/-! ## one byte to port 10 -/

/-- an acknowledgement from the host 5 for port 10 -/
def ackEvent : ControllerEvent := .mipd 5 4 [40, 0, 0, 0]

/-- the client on descriptor 7, after its package was accepted -/
def registeredClient (sPackage : List UInt8) (c : AppConnection) : Clients :=
  ((Clients.start 10).connect 7 true).register 7 sPackage (1, ⟨[c], 10, 0⟩)

theorem run_registeredClient (sPackage : List UInt8) (c : AppConnection)
    (h : ((Clients.start 10).connect 7 true).controller.handleAppPackage 7 sPackage 0
      = .ok (1, ⟨[c], 10, 0⟩)) :
    Run ClientsStep (.ok (Clients.start 10))
      [(.connect 7 true, .ok ((Clients.start 10).connect 7 true)),
        (.application 7 sPackage 0, .ok (registeredClient sPackage c)),
        (ackEvent, (registeredClient sPackage c).handle ackEvent)] := by
  refine Run.cons ⟨_, rfl, List.not_mem_nil, rfl⟩ (Run.cons ⟨_, rfl, trivial, ?_⟩
    (Run.cons ⟨_, rfl, trivial, rfl⟩ (Run.nil _)))
  rw [Clients.handle, h]
  rfl

/-- the connection that a client gets for one byte to the address 5 -/
def senderConnection : AppConnection :=
  ⟨10, 7, 5, .CONN_SENDER, some (MIPTPSendJob.create 10 5 oneByte 0 0), none⟩

theorem ports_separate_sender : ∃ tr, Run ClientsStep (.ok (Clients.start 10)) tr ∧
    Always SeparatedStep (.ok (Clients.start 10)) tr ∧ tr.length = 3 := by
  have hr := run_registeredClient senderPackage senderConnection rfl
  refine ⟨_, hr, (ports_separate_iff 10 hr).mpr ⟨trivial, trivial, ?_, trivial⟩, rfl⟩
  intro package _ c hc _
  obtain rfl := List.mem_singleton.mp hc
  exact ⟨_, rfl, Or.inl rfl, by decide⟩

/-- the client asks for port 16394 -/
def farSenderPackage : List UInt8 := [10, 64, 5, 1, 0, 0, 0, 1, 0, 65]

/-- **A client on port 16394 gets what is for port 10.** -/
theorem port_collision :
    Run ClientsStep (.ok (Clients.start 10))
      [(.connect 7 true, .ok ((Clients.start 10).connect 7 true)),
        (.application 7 farSenderPackage 0, .ok (registeredClient farSenderPackage senderConnection)),
        (ackEvent, (registeredClient farSenderPackage senderConnection).handle ackEvent)] ∧
    ¬ ∀ (maxConnections : ℕ) (tr : List (ControllerEvent × Except Fault Clients)),
      Run ClientsStep (.ok (Clients.start maxConnections)) tr →
        Always SeparatedStep (.ok (Clients.start maxConnections)) tr := by
  have hr := run_registeredClient farSenderPackage senderConnection rfl
  refine ⟨hr, fun hall => ?_⟩
  obtain ⟨_, _, hseparated, _⟩ := hall 10 _ hr
  have hiff := hseparated _ rfl senderConnection List.mem_cons_self
  obtain ⟨request, hrequest, _, hport⟩ := hiff.mp ⟨.here _ _, rfl⟩
  obtain rfl := Option.some.inj hrequest
  exact absurd hport (by decide)

end MipStack
