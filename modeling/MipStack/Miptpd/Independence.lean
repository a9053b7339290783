import MipStack.Miptpd.Sessions

/-!
# The clients of miptpd are independent, and get their data sent whole or not at all

* `Concerns k ev`        the event is for the client on socket `k`, or for all clients;
* `only_after`, `only_offers`   the sessions of a socket and what they offer depend on the events that
                         concern it;
* `clients_interleave`   **what a daemon sends is an interleaving of what it sends for each client
                         alone**;
* `offers_whole`         a sender that is not finished sends its data in one package, or a package of
                         it does not fit;
* `messages_whole`       **in every run that the daemon survives, each message is the whole data of a
                         client**, less its last two bytes.
-/

namespace MipStack
open Library

/-! ## the events of one client -/

def Concerns (k : ℕ) : MIPTPEvent → Bool
  | .poll => true
  | .mipd _ _ => true
  | .connect newSocket => newSocket = k
  | .application socket _ _ => socket = k
  | .stdin _ => true

namespace Sessions
variable {sessions : List Session} {k : ℕ} {ev : MIPTPEvent}

/-- an event that concerns a socket does to its sessions what it does to all -/
theorem only_after (h : Concerns k ev = true) (sessions : List Session) :
    only Session.socket k (after sessions ev) = after (only Session.socket k sessions) ev := by
  cases ev with
  | poll => rfl
  | stdin bytes => rfl
  | mipd bytes memory =>
    simp only [after]
    split
    · rfl
    · split
      · rfl
      · exact only_map (Session.socket_hear _) k sessions
  | connect newSocket =>
    have hk : newSocket = k := of_decide_eq_true h
    rw [after, after, only_append, only_singleton, if_pos hk]
  | application socket bytes now =>
    obtain rfl : socket = k := of_decide_eq_true h
    simp only [after, lookup_only]
    split
    · rfl
    · split
      · exact only_erase socket sessions
      · split
        · rfl
        · refine only_put ?_ sessions
          rfl

/-- the other events leave them alone -/
theorem only_after_of_not (h : Concerns k ev = false) (sessions : List Session) :
    only Session.socket k (after sessions ev) = only Session.socket k sessions := by
  cases ev with
  | poll => rfl
  | stdin bytes => rfl
  | mipd bytes memory => cases h
  | connect newSocket =>
    have hk : newSocket ≠ k := of_decide_eq_false h
    rw [after, only_append, only_singleton, if_neg hk, List.append_nil]
  | application socket bytes now =>
    have hk : k ≠ socket := fun heq => of_decide_eq_false h heq.symm
    simp only [after]
    split
    · rfl
    · split
      · exact only_erase_of_ne hk sessions
      · split
        · rfl
        · exact only_put_of_ne hk sessions

theorem survives_only (h : Survives sessions ev) (hev : Concerns k ev = true) :
    Survives (only Session.socket k sessions) ev := by
  cases ev with
  | poll => exact fun g hg => h g (List.mem_of_mem_filter hg)
  | mipd bytes memory => exact h
  | connect newSocket => exact h
  | application socket bytes now =>
    obtain rfl : socket = k := of_decide_eq_true hev
    intro hsome
    rw [lookup_only] at hsome
    exact h hsome
  | stdin bytes => exact h

theorem only_offers (k : ℕ) (sessions : List Session) (ev : MIPTPEvent) :
    offers (only Session.socket k sessions) ev = only Prod.fst k (offers sessions ev) := by
  cases ev with
  | poll =>
    show List.flatMap _ (only Session.socket k sessions) = only Prod.fst k (List.flatMap _ sessions)
    induction sessions with
    | nil => rfl
    | cons g sessions ih =>
      rw [only_cons, List.flatMap_cons, only_append, ← ih]
      by_cases hg : g.socket = k
      · rw [if_pos hg, List.flatMap_cons]
        refine congrArg (· ++ _) (Eq.symm ?_)
        refine List.filter_eq_self.mpr fun x hx => ?_
        obtain ⟨p, _, rfl⟩ := List.mem_map.mp hx
        exact decide_eq_true hg
      · have hnone : only Prod.fst k (g.offers.map fun p => (g.socket, g.destination, p)) = [] := by
          refine List.filter_eq_nil_iff.mpr fun x hx => ?_
          obtain ⟨p, _, rfl⟩ := List.mem_map.mp hx
          exact fun heq => hg (of_decide_eq_true heq)
        rw [if_neg hg, hnone, List.nil_append]
  | mipd bytes memory => rfl
  | connect newSocket => rfl
  | application socket bytes now => rfl
  | stdin bytes => rfl

theorem offers_of_not (h : Concerns k ev = false) (sessions : List Session) :
    offers sessions ev = [] := by
  cases ev with
  | poll => cases h
  | mipd bytes memory => rfl
  | connect newSocket => rfl
  | application socket bytes now => rfl
  | stdin bytes => rfl

/-- **The sessions of a socket in a run** are those of a run with the events that concern it. -/
theorem only_run (k : ℕ) (sessions : List Session) (events : List MIPTPEvent) :
    only Session.socket k (run sessions events)
      = run (only Session.socket k sessions) (events.filter (Concerns k)) := by
  induction events generalizing sessions with
  | nil => rfl
  | cons ev events ih =>
    show only Session.socket k (run (after sessions ev) events) = _
    rw [ih, List.filter_cons]
    split
    · rename_i hev
      rw [only_after hev]
      rfl
    · rename_i hev
      rw [only_after_of_not (Bool.eq_false_iff.mpr hev)]

theorem survivesAll_only {events : List MIPTPEvent} (k : ℕ) (h : SurvivesAll sessions events) :
    SurvivesAll (only Session.socket k sessions) (events.filter (Concerns k)) := by
  induction events generalizing sessions with
  | nil => trivial
  | cons ev events ih =>
    obtain ⟨hev, hrest⟩ := h
    have hrest' := ih hrest
    rw [List.filter_cons]
    split
    · rename_i hk
      rw [only_after hk] at hrest'
      exact ⟨survives_only hev hk, hrest'⟩
    · rename_i hk
      rwa [only_after_of_not (Bool.eq_false_iff.mpr hk)] at hrest'

theorem offered_only (k : ℕ) (sessions : List Session) (events : List MIPTPEvent) :
    offered (only Session.socket k sessions) (events.filter (Concerns k))
      = only Prod.fst k (offered sessions events) := by
  induction events generalizing sessions with
  | nil => rfl
  | cons ev events ih =>
    rw [offered, only_append, ← only_offers, ← ih, List.filter_cons]
    split
    · rename_i hk
      rw [only_after hk]
      rfl
    · rename_i hk
      have hk' := Bool.eq_false_iff.mpr hk
      rw [only_after_of_not hk', offers_of_not hk', List.nil_append]

end Sessions

/-! ## the messages of one client -/

/-- each message with the socket of the offer that it is sent for -/
def tag (offers : List (ℕ × MIPAddress × MIPTPPackage)) (messages : List MIPDMessage) :
    List (ℕ × MIPDMessage) := List.zipWith (fun offer message => (offer.1, message)) offers messages

section
variable {offers : List (ℕ × MIPAddress × MIPTPPackage)} {messages messages' : List MIPDMessage}

theorem snd_tag (h : List.Forall₂ Sends offers messages) :
    (tag offers messages).map Prod.snd = messages := by
  induction h with
  | nil => rfl
  | cons _ _ ih => exact congrArg _ ih

theorem sends_only (k : ℕ) (h : List.Forall₂ Sends offers messages) :
    List.Forall₂ Sends (only Prod.fst k offers)
      ((only Prod.fst k (tag offers messages)).map Prod.snd) := by
  induction h with
  | nil => exact List.Forall₂.nil
  | cons hsends _ ih =>
    rename_i offer message offers messages _
    show List.Forall₂ Sends (only Prod.fst k (offer :: offers))
      ((only Prod.fst k ((offer.1, message) :: tag offers messages)).map Prod.snd)
    rw [only_cons, only_cons]
    by_cases hk : offer.1 = k
    · rw [if_pos hk, if_pos hk]
      exact List.Forall₂.cons hsends ih
    · rw [if_neg hk, if_neg hk]
      exact ih

theorem exists_offer (h : List.Forall₂ Sends offers messages) {message : MIPDMessage}
    (hm : message ∈ messages) : ∃ offer ∈ offers, Sends offer message := by
  induction h with
  | nil => cases hm
  | cons hsends _ ih =>
    rcases List.mem_cons.mp hm with rfl | hm
    · exact ⟨_, List.mem_cons_self, hsends⟩
    · obtain ⟨offer, hoffer, hsends'⟩ := ih hm
      exact ⟨offer, List.mem_cons_of_mem _ hoffer, hsends'⟩

/-- an offer has one message -/
theorem sends_unique (h : List.Forall₂ Sends offers messages)
    (h' : List.Forall₂ Sends offers messages') : messages = messages' := by
  refine Relator.RightUnique.forall₂ (fun offer m m' hm hm' => ?_) h h'
  exact Except.ok.inj (hm.symm.trans hm')

end

/-- **Every client is served as if it were alone.**  The messages of a run can be told apart by the
clients that they are sent for; those of a client are the messages of the run in which nobody else
connects or writes, and so are its connections. -/
theorem clients_interleave {events : List MIPTPEvent} {s : MIPTPServer}
    (h : (MIPTPServer.create.serve events).1 = .ok s) :
    ∃ tagged : List (ℕ × MIPDMessage),
      tagged.map Prod.snd = (MIPTPServer.create.serve events).2 ∧
      ∀ k, ∃ s', (MIPTPServer.create.serve (events.filter (Concerns k))).1 = .ok s' ∧
        s'.connections = only AppConnection.socket k s.connections ∧
        (MIPTPServer.create.serve (events.filter (Concerns k))).2
          = (only Prod.fst k tagged).map Prod.snd := by
  have hall := ServesSessions.created.serve events
  have hsends := hall.sends s h
  refine ⟨tag _ _, snd_tag hsends, fun k => ?_⟩
  have halone := ServesSessions.created.serve (events.filter (Concerns k))
  have hsurvives := Sessions.survivesAll_only k (hall.survives.mp ⟨s, h⟩)
  obtain ⟨s', hs'⟩ := halone.survives.mpr hsurvives
  refine ⟨s', hs', ?_, ?_⟩
  · have hrun : Sessions.run [] (events.filter (Concerns k))
        = only Session.socket k (Sessions.run [] events) := (Sessions.only_run k [] events).symm
    rw [(halone.serves s' hs').connections, (hall.serves s h).connections, hrun,
      only_map Session.socket_connection]
  · have hoffered : Sessions.offered [] (events.filter (Concerns k))
        = only Prod.fst k (Sessions.offered [] events) := Sessions.offered_only k [] events
    have hsent := halone.sends s' hs'
    rw [hoffered] at hsent
    exact sends_unique hsent (sends_only k hsends)

/-- two clients, of which one sends -/
theorem clients_interleave_two : ∃ tagged : List (ℕ × MIPDMessage),
    tagged.map Prod.snd = (MIPTPServer.create.serve twoClientEvents).2 ∧
    ∀ k, ∃ s', (MIPTPServer.create.serve (twoClientEvents.filter (Concerns k))).1 = .ok s' ∧
      s'.connections = only AppConnection.socket k senderLast.connections ∧
      (MIPTPServer.create.serve (twoClientEvents.filter (Concerns k))).2
        = (only Prod.fst k tagged).map Prod.snd :=
  clients_interleave serve_twoClientEvents

/-! ## what the messages carry -/

namespace Session
variable {h : Session} {data : JobData}

theorem length_slice (port : BitVec 14) (data : JobData) (s : ℕ) :
    (slice port data s).data.length = min 1492 (data.1.length - s * 1492 % 65536) := by
  rw [slice, List.length_take, List.length_drop]

/-- a sender that is not finished has not heard the last number, or nothing at all -/
theorem next_of_not_finished (hdata : h.toSend = some data) (hfinished : h.Finished = false)
    (hpos : 0 < data.1.length) : h.next = 0 ∨ h.next < (data.1.length - 1) / 1492 := by
  by_contra hnot
  obtain ⟨hzero, hle⟩ := not_or.mp hnot
  have hheard : h.heard ≠ [] := by
    intro hnil
    rw [next, hnil] at hzero
    exact hzero rfl
  rw [(finished_iff hdata).mpr ⟨hheard, hpos, Nat.le_of_not_lt hle⟩] at hfinished
  cases hfinished

/-- the window begins with the highest number heard -/
theorem next_mem_numbers (hroom : h.next + 11 < 65536)
    (hle : h.next * 1492 % 65536 ≤ data.1.length) : h.next ∈ h.numbers data := by
  rw [numbers, if_pos hroom, List.range'_succ, List.takeWhile_cons_of_pos (by simpa using hle)]
  exact List.mem_cons_self

theorem le_of_mem_numbers {s : ℕ} (hs : s ∈ h.numbers data) :
    s < h.next + 11 ∧ s * 1492 % 65536 ≤ data.1.length := by
  unfold numbers at hs
  split at hs
  · have hrange := (List.mem_range'_1.mp ((List.takeWhile_sublist _).mem hs)).2
    exact ⟨hrange, by simpa using List.mem_takeWhile_imp hs⟩
  · cases hs

/-- **A sender that is not finished offers its data in one package**, or a package that is too long:
as long as the last number has not been heard, the window begins with a full slice. -/
theorem offers_whole (hdata : h.toSend = some data) (hfinished : h.Finished = false)
    (hsmall : ∀ p ∈ h.offers, p.data.length ≤ 1490) :
    data.1.length ≤ 1490 ∧ ∀ p ∈ h.offers, p.data = data.1 := by
  have hmax : data.1.length ≤ 65535 := data.2
  have hoffers : h.offers = (h.numbers data).map (slice h.port data) := by
    rw [offers, hdata]
    dsimp only
    rw [hfinished]
    rfl
  rcases Nat.eq_zero_or_pos data.1.length with hzero | hpos
  · refine ⟨by omega, fun p hp => ?_⟩
    rw [hoffers] at hp
    obtain ⟨s, _, rfl⟩ := List.mem_map.mp hp
    rw [slice, List.length_eq_zero_iff.mp hzero, List.drop_nil, List.take_nil]
  have hnext := next_of_not_finished hdata hfinished hpos
  have hindex : h.next * 1492 % 65536 = h.next * 1492 := Nat.mod_eq_of_lt (by omega)
  have hfirst := hsmall (slice h.port data h.next) (by
    rw [hoffers]
    exact List.mem_map_of_mem (next_mem_numbers (by omega) (by omega)))
  rw [length_slice, hindex] at hfirst
  have hzero : h.next = 0 := by omega
  refine ⟨by omega, fun p hp => ?_⟩
  rw [hoffers] at hp
  obtain ⟨s, hs, rfl⟩ := List.mem_map.mp hp
  obtain ⟨hlt, hle⟩ := le_of_mem_numbers hs
  have hs0 : s = 0 := by
    rw [Nat.mod_eq_of_lt (by omega)] at hle
    omega
  rw [slice, hs0, Nat.zero_mul, Nat.zero_mod, List.drop_zero]
  exact List.take_of_length_le (by omega)

/-- only a sender that is not finished offers anything, in slices on its port -/
theorem sending_of_mem_offers {p : MIPTPPackage} (hp : p ∈ h.offers) :
    ∃ data, h.toSend = some data ∧ h.Finished = false ∧ p.miptpHeader.port = h.port := by
  unfold offers at hp
  split at hp
  · cases hp
  · rename_i data hdata
    split at hp
    · cases hp
    · rename_i hfinished
      obtain ⟨s, _, rfl⟩ := List.mem_map.mp hp
      exact ⟨data, hdata, Bool.eq_false_iff.mpr hfinished, rfl⟩

theorem request_of_toSend (hdata : h.toSend = some data) :
    ∃ package now, h.request = some (package, now) ∧ package.type = .MIPTP_SENDER ∧
      package.data = data := by
  obtain ⟨socket, request, heard⟩ := h
  rcases request with _ | ⟨package, now⟩
  · cases hdata
  · simp only [toSend] at hdata
    split at hdata
    · rename_i htype
      exact ⟨package, now, rfl, htype, Option.some.inj hdata⟩
    · cases hdata

end Session

/-- a request of a sender, and an offer that is made for it -/
structure OfferedFor (package : ClientPackage) (offer : ℕ × MIPAddress × MIPTPPackage) : Prop where
  type : package.type = .MIPTP_SENDER
  small : package.data.1.length ≤ 1490
  destination : offer.2.1 = package.destination
  port : offer.2.2.miptpHeader.port = BitVec.ofNat 14 package.port.toNat
  data : offer.2.2.data = package.data.1

namespace Sessions
variable {sessions : List Session} {events all : List MIPTPEvent}

/-- every request was written by the client on the socket -/
def Requested (all : List MIPTPEvent) (sessions : List Session) : Prop :=
  ∀ h ∈ sessions, ∀ package now, h.request = some (package, now) →
    ∃ bytes, MIPTPEvent.application h.socket bytes now ∈ all ∧
      ClientPackage.deserialize bytes.readBuffer = .ok package

theorem Requested.after (h : Requested all sessions) {ev : MIPTPEvent} (hev : ev ∈ all) :
    Requested all (Sessions.after sessions ev) := by
  cases ev with
  | poll => exact h
  | stdin bytes => exact h
  | mipd bytes memory =>
    simp only [Sessions.after]
    split
    · exact h
    · split
      · exact h
      · intro g hg package now hrequest
        obtain ⟨g', hg', rfl⟩ := List.mem_map.mp hg
        rw [Session.socket_hear]
        refine h g' hg' package now ?_
        rw [← hrequest]
        unfold Session.hear
        split <;> rfl
  | connect newSocket =>
    intro g hg package now hrequest
    rcases List.mem_append.mp hg with hg | hg
    · exact h g hg package now hrequest
    · rw [List.mem_singleton.mp hg] at hrequest
      cases hrequest
  | application socket bytes time =>
    simp only [Sessions.after]
    split
    · exact h
    · split
      · exact fun g hg => h g ((erase_sublist _ _ _).mem hg)
      · split
        · exact h
        · rename_i package hpackage
          intro g hg package' now hrequest
          rcases List.mem_append.mp hg with hg | hg
          · exact h g ((erase_sublist _ _ _).mem hg) package' now hrequest
          · obtain rfl := List.mem_singleton.mp hg
            obtain ⟨rfl, rfl⟩ := Prod.mk.inj (Option.some.inj hrequest)
            exact ⟨bytes, hev, hpackage⟩

/-- an offer is for the last request of its client -/
theorem offers_offeredFor {ev : MIPTPEvent} (hev : Survives sessions ev)
    {offer : ℕ × MIPAddress × MIPTPPackage} (hoffer : offer ∈ offers sessions ev) :
    ∃ h ∈ sessions, ∃ package now, h.socket = offer.1 ∧ h.request = some (package, now) ∧
      OfferedFor package offer := by
  cases ev with
  | poll =>
    obtain ⟨h, hh, hoffer⟩ := List.mem_flatMap.mp hoffer
    obtain ⟨p, hp, rfl⟩ := List.mem_map.mp hoffer
    obtain ⟨data, hdata, hfinished, hport⟩ := Session.sending_of_mem_offers hp
    obtain ⟨hsmall, hwhole⟩ := Session.offers_whole hdata hfinished (hev h hh)
    obtain ⟨package, now, hrequest, htype, rfl⟩ := Session.request_of_toSend hdata
    refine ⟨h, hh, package, now, rfl, hrequest, htype, hsmall, ?_, ?_, hwhole p hp⟩
    · show h.destination = _
      rw [Session.destination, hrequest]
    · rw [hport, Session.port, hrequest]
  | mipd bytes memory => cases hoffer
  | connect newSocket => cases hoffer
  | application socket bytes now => cases hoffer
  | stdin bytes => cases hoffer

/-- every offer of a run is for a request that a client has written in it -/
theorem offered_offeredFor (hreq : Requested all sessions) (hsub : ∀ ev ∈ events, ev ∈ all)
    (hall : SurvivesAll sessions events) {offer : ℕ × MIPAddress × MIPTPPackage}
    (hoffer : offer ∈ offered sessions events) :
    ∃ bytes now package, MIPTPEvent.application offer.1 bytes now ∈ all ∧
      ClientPackage.deserialize bytes.readBuffer = .ok package ∧ OfferedFor package offer := by
  induction events generalizing sessions with
  | nil => cases hoffer
  | cons ev events ih =>
    obtain ⟨hev, hrest⟩ := List.forall_mem_cons.mp hsub
    rcases List.mem_append.mp hoffer with hoffer | hoffer
    · obtain ⟨h, hh, package, now, hsocket, hrequest, hfor⟩ := offers_offeredFor hall.1 hoffer
      obtain ⟨bytes, hbytes, hpackage⟩ := hreq h hh package now hrequest
      rw [hsocket] at hbytes
      exact ⟨bytes, now, package, hbytes, hpackage, hfor⟩
    · exact ih (hreq.after hev) hrest hall.2 hoffer

end Sessions

/-- a message with the whole data of a request.  The size of the data stands in front of it, and the
message ends two bytes early. -/
structure CarriesAll (package : ClientPackage) (message : MIPDMessage) : Prop where
  type : package.type = .MIPTP_SENDER
  small : package.data.1.length ≤ 1490
  destination : message.mipAddress = package.destination
  data : ∃ header : MIPTPHeader, header.port = BitVec.ofNat 14 package.port.toNat ∧
    message.data = header.toBytes ++
      (leBytes 2 package.data.1.length ++ package.data.1).take package.data.1.length

theorem OfferedFor.carriesAll {package : ClientPackage} {offer : ℕ × MIPAddress × MIPTPPackage}
    {message : MIPDMessage} (h : OfferedFor package offer) (hsends : Sends offer message) :
    CarriesAll package message := by
  have hlen : offer.2.2.data.length ≤ 1490 := by
    rw [h.data]
    exact h.small
  obtain ⟨hbytes, hsize⟩ := MIPTPPackage.serialize_eq (hlen.trans (by decide))
  have hheader : offer.2.2.miptpHeader.toBytes.length = 4 := rfl
  have hwritten : offer.2.2.serialize.1.length = 6 + offer.2.2.data.length := by
    rw [hbytes, List.length_append, List.length_append, length_leBytes, hheader]
    omega
  have hfits : offer.2.2.serialize.1.length ≤ MAX_MIPTP_PACKAGE_SIZE := by
    show _ ≤ 1496
    omega
  have hmax : offer.2.2.serialize.2.toNat ≤ MAX_MIPMESSAGE_DATA_SIZE := by
    show _ ≤ 1496
    omega
  obtain ⟨m, hm, haddress, hdata⟩ :=
    MIPDMessage.create_eq_some offer.2.1 offer.2.2.serialize.1 hmax
  have hmessage : Sends offer m := by
    simp only [Sends, MIPTPAppController.packageMessage]
    rw [if_pos hfits, hm]
  obtain rfl := Except.ok.inj (hmessage.symm.trans hsends)
  refine ⟨h.type, h.small, haddress.trans h.destination, offer.2.2.miptpHeader, h.port, ?_⟩
  rw [hdata, List.takeD_eq_take _ (by omega), hbytes, hsize, ← hheader, List.take_length_add_append,
    h.data]

/-- **What miptpd sends.**  In every run that it survives, each message is for a request that one of
its clients has written: it goes to the destination of this and carries all of its data, in one
package. -/
theorem messages_whole {events : List MIPTPEvent} {s : MIPTPServer}
    (h : (MIPTPServer.create.serve events).1 = .ok s) :
    ∀ message ∈ (MIPTPServer.create.serve events).2, ∃ socket bytes now package,
      MIPTPEvent.application socket bytes now ∈ events ∧
      ClientPackage.deserialize bytes.readBuffer = .ok package ∧ CarriesAll package message := by
  have hall := ServesSessions.created.serve events
  intro message hmessage
  obtain ⟨offer, hoffer, hsends⟩ := exists_offer (hall.sends s h) hmessage
  obtain ⟨bytes, now, package, hbytes, hpackage, hfor⟩ :=
    Sessions.offered_offeredFor (List.forall_mem_nil _) (fun _ hev => hev)
      (hall.survives.mp ⟨s, h⟩) hoffer
  exact ⟨offer.1, bytes, now, package, hbytes, hpackage, hfor.carriesAll hsends⟩

/-- what is sent later in a run is sent in the run -/
theorem mem_serve_cons {S S' : MIPTPServer} {ev : MIPTPEvent} {events : List MIPTPEvent}
    {message : MIPDMessage} (h : (S.handleEvent ev).map Prod.fst = .ok S')
    (hm : message ∈ (S'.serve events).2) : message ∈ (S.serve (ev :: events)).2 := by
  obtain ⟨sent, hserve⟩ := exists_serve_cons h events
  rw [hserve]
  exact List.mem_append_right _ hm

theorem exists_sent_twoClientEvents :
    ∃ message, message ∈ (MIPTPServer.create.serve twoClientEvents).2 := by
  have hone : (senderLast.serve [.poll]).2.length = 1 := rfl
  obtain ⟨message, hmessage⟩ := List.exists_mem_of_length_pos (hone ▸ Nat.one_pos)
  have hfirst : (MIPTPServer.create.handleEvent (.connect 7)).map Prod.fst = .ok oneClient := rfl
  have hsecond : (oneClient.handleEvent (.connect 8)).map Prod.fst = .ok twoClients := rfl
  exact ⟨message, mem_serve_cons hfirst (mem_serve_cons hsecond
    (mem_serve_cons handleEvent_twoClients hmessage))⟩

/-- the message with the two bytes -/
theorem messages_whole_two : ∃ message ∈ (MIPTPServer.create.serve twoClientEvents).2,
    ∃ socket bytes now package, MIPTPEvent.application socket bytes now ∈ twoClientEvents ∧
      ClientPackage.deserialize bytes.readBuffer = .ok package ∧ CarriesAll package message := by
  obtain ⟨message, hmessage⟩ := exists_sent_twoClientEvents
  exact ⟨message, hmessage, messages_whole serve_twoClientEvents message hmessage⟩

end MipStack
