import MipStack.Network.ArpSafety

/-!
# How neighbours get to know each other

* `Calm`               no server ends and no purge finds anything too old;
* `ArpStep.knows`      **a calm step forgets nothing**;
* `ArpStep.introduces` **an arriving MIP-ARP frame introduces its sender**;
* `arp_resolves`       **once a MIP-ARP frame has crossed every link both ways, all caches resolve**;
* `arp_exchange`       **a request and its answer are enough for one link.**
-/

set_option linter.unusedSectionVars false

namespace MipStack
open Library

section
variable {Node : Type} [DecidableEq Node] {N : WiredNetwork Node} {s s' : ArpNet Node} {x y : Node}
  {server server' : MIPDServer} {env : Env} {ev : Event} {effects : List Effect}

/-! ## what neighbours learn -/

/-- no server ends, and no entry is too old at any reading of a purge -/
def Calm (s : ArpNet Node) : ArpAction Node → Prop
  | .stop _ => False
  | .event x env .poll => ∀ server, s.servers x = some server → ∀ e ∈ server.cache.entries,
      ∀ k, ¬ e.isExpired (env.clock k) server.cache.maxAge
  | _ => True

def MipArpCache.Knows (cache : MipArpCache) (a : MIPAddress) : Prop :=
  ∃ e ∈ cache.entries, e.mipAddress = a

/-- `x` is up and has `a` in its cache -/
def ArpNet.Knows (s : ArpNet Node) (x : Node) (a : MIPAddress) : Prop :=
  ∃ server, s.servers x = some server ∧ server.cache.Knows a

theorem MipArpCache.purge_of_fresh (clock : Clock) (i : ℕ) (cache : MipArpCache)
    (h : ∀ e ∈ cache.entries, ∀ k, ¬ e.isExpired (clock k) cache.maxAge) :
    (purge clock i cache).2 = cache := by
  induction clock, i, cache using purge.induct with
  | case1 clock i cache hlt hexp ih => exact absurd hexp (h _ (List.getElem_mem hlt) 0)
  | case2 clock i cache hlt hexp ih =>
    rw [purge, dif_pos hlt, if_neg hexp]
    exact ih fun e he k => h e he (k + 1)
  | case3 clock i cache hlt => rw [purge, dif_neg hlt]

theorem MipArpCache.Knows.assign {cache : MipArpCache} {a : MIPAddress} (h : cache.Knows a)
    (e : MipArpCacheEntry) : MipArpCache.Knows
      { cache with entries := assign MipArpCacheEntry.mipAddress e cache.entries } a := by
  obtain ⟨e', he', rfl⟩ := h
  have hsome : (lookup MipArpCacheEntry.mipAddress e'.mipAddress
      (Library.assign MipArpCacheEntry.mipAddress e cache.entries)).isSome := by
    rw [lookup_assign]
    split
    · rfl
    · exact lookup_isSome_of_mem MipArpCacheEntry.mipAddress he'
  obtain ⟨e'', he''⟩ := Option.isSome_iff_exists.mp hsome
  exact ⟨e'', mem_of_lookup he'', key_of_lookup he''⟩

theorem MipArpCache.knows_assign (cache : MipArpCache) (e : MipArpCacheEntry) : MipArpCache.Knows
    { cache with entries := assign MipArpCacheEntry.mipAddress e cache.entries } e.mipAddress :=
  ⟨e, mem_assign_self _ _, rfl⟩

/-- **What a mipd knows it keeps**, unless a purge finds something too old. -/
theorem MipArpCache.Knows.event {a : MIPAddress} (hk : server.cache.Knows a)
    (h : server.handleEvent env ev = .ok (server', effects))
    (hfresh : ev = .poll → ∀ e ∈ server.cache.entries,
      ∀ k, ¬ e.isExpired (env.clock k) server.cache.maxAge) : server'.cache.Knows a := by
  generalize hcache : server'.cache = cache
  cases hcache ▸ MIPDServer.cached h with
  | purge =>
    have hsame := MipArpCache.purge_of_fresh env.clock 0 server.cache (hfresh rfl)
    obtain ⟨e, he, ha⟩ := hk
    refine ⟨e, ?_, ha⟩
    rw [(MipArpCache.entries_updateArpCache env.clock server.cache).1, hsame]
    exact he
  | keep _ _ => exact hk
  | learn _ _ _ happ =>
    rcases MipArpCache.appendToCache_inv happ with ⟨_, rfl⟩ | ⟨_, _, rfl⟩
    · exact hk
    · exact hk.assign _

/-- the source of a MIP-ARP frame is known after it -/
theorem knows_of_learned {sd : ℤ} {p : MIPPackage} (hev : ev.package env = some (sd, p))
    (hp : IsArpFrame server sd p) (hsrc : p.mHeader.srcAddr ≠ 255)
    (h : server.handleEvent env ev = .ok (server', effects)) :
    server'.cache.Knows p.mHeader.srcAddr := by
  generalize hcache : server'.cache = cache
  cases hcache ▸ MIPDServer.cached h with
  | purge => cases hev
  | keep _ hno => exact absurd hp (hno sd p hev)
  | learn hev' _ _ happ =>
    obtain ⟨rfl, rfl⟩ := Prod.mk.inj (Option.some.inj (hev.symm.trans hev'))
    rcases MipArpCache.appendToCache_inv happ with ⟨h255, _⟩ | ⟨_, _, rfl⟩
    · exact absurd h255 hsrc
    · exact server.cache.knows_assign _

theorem ArpNet.Knows.after {a : MIPAddress} (h : s.Knows y a) (hx : s.servers x = some server)
    (hk : server.cache.Knows a → server'.cache.Knows a) : (s.after x server' effects).Knows y a := by
  obtain ⟨t, ht, hmem⟩ := h
  by_cases hxy : y = x
  · subst hxy
    obtain rfl := Option.some.inj (hx.symm.trans ht)
    exact ⟨server', Function.update_self .., hk hmem⟩
  · exact ⟨t, (Function.update_of_ne hxy ..).trans ht, hmem⟩

/-- **A calm step forgets nothing.** -/
theorem ArpStep.knows {N : Network Node} {a : ArpAction Node} (h : ArpStep N s a s')
    (hc : Calm s a) {b : MIPAddress} (hk : s.Knows y b) : s'.Knows y b := by
  cases h with
  | @boot x now h =>
    obtain ⟨t, ht, hmem⟩ := hk
    have hne : y ≠ x := fun hyx => by
      rw [hyx, h] at ht
      cases ht
    exact ⟨t, (Function.update_of_ne hne ..).trans ht, hmem⟩
  | stop => exact absurd hc id
  | event hev hx h =>
    refine hk.after hx fun hmem => hmem.event h fun hpoll => ?_
    subst hpoll
    exact hc _ hx
  | arrive hf hl hsock hy h =>
    exact hk.after hy fun hmem => hmem.event h nofun

/-- **An arriving MIP-ARP frame introduces its sender.** -/
theorem ArpStep.introduces {f : Frame Node} (h : ArpStep N.toNetwork s (.arrive f y env) s')
    (hs : s.Sound N.toNetwork) (harp : f.package.IsArp) {i j : InterfaceRecord}
    (hl : N.link f.sender i y j) (hsock : (i.rawSocket : ℤ) = f.sock) :
    s'.Knows y i.mipAddress := by
  cases h with
  | @arrive _ _ i' j' _ pointer server server' effects hf hl' hsock' hy h =>
    obtain rfl := N.socket_unique (N.link_mem hl') (N.link_mem hl)
      (Nat.cast_inj (R := ℤ) |>.mp (hsock'.trans hsock.symm))
    obtain ⟨_, rfl⟩ := N.one_end hl' hl
    have hfrom := hs.source hf hl hsock harp
    have hj' := (hs.servers y server hy).isSocketInTable hl
    have hrecv := hs.received hf harp env.behind pointer
    have hk := knows_of_learned (Event.package_rawFrame hrecv _) ⟨hj', harp⟩
      (hfrom.srcAddr ▸ N.unicast (N.interface_owned (N.link_mem hl))) h
    exact ⟨server', Function.update_self .., hfrom.srcAddr ▸ hk⟩

inductive CalmRun (N : Network Node) (s : ArpNet Node) : List (ArpAction Node) → ArpNet Node → Prop
  | nil : CalmRun N s [] s
  | snoc {l : List (ArpAction Node)} {a : ArpAction Node} {t t' : ArpNet Node}
      (hr : CalmRun N s l t) (hc : Calm t a) (h : ArpStep N t a t') : CalmRun N s (l ++ [a]) t'

theorem CalmRun.reachable {N : Network Node} {l : List (ArpAction Node)} (hr : CalmRun N s l s')
    (h : s.Reachable N) : s'.Reachable N := by
  induction hr with
  | nil => exact h
  | snoc _ _ hstep ih => exact Reach.next ih ⟨_, hstep⟩

/-- the sender of a MIP-ARP frame that has arrived is known from then on -/
theorem CalmRun.knows {l : List (ArpAction Node)} (hr : CalmRun N.toNetwork s l s')
    (hs : s.Reachable N.toNetwork) {f : Frame Node} (hf : .arrive f y env ∈ l)
    (harp : f.package.IsArp) {i j : InterfaceRecord} (hl : N.link f.sender i y j)
    (hsock : (i.rawSocket : ℤ) = f.sock) : s'.Knows y i.mipAddress := by
  induction hr with
  | nil => cases hf
  | snoc hr hc hstep ih =>
    rcases List.mem_append.mp hf with hold | hnew
    · exact hstep.knows hc (ih hold)
    · obtain rfl := List.mem_singleton.mp hnew
      exact hstep.introduces (ArpNet.sound_of_reachable (hr.reachable hs)) harp hl hsock

theorem ArpServer.resolves_of_knows (hs : ArpServer N.toNetwork x server) {i j : InterfaceRecord}
    (hl : N.link x i y j) (hk : server.cache.Knows j.mipAddress) :
    server.cache.queryMipAddressSrcSocket j.mipAddress = i.rawSocket ∧
      server.cache.queryCacheSocketMipAddress i.rawSocket = j.mipAddress := by
  have hsome := MipArpCache.queryMipAddressPos_isSome.mpr hk
  rw [hs.queryMipAddressSrcSocket_eq hl, hs.queryCacheSocketMipAddress_eq hl, if_pos hsome,
    if_pos hsome]
  exact ⟨rfl, rfl⟩

/-- **MIP-ARP resolves every link.**  A run in which no server ends and no purge finds anything too
old, and in which over every link some MIP-ARP frame has arrived each way, ends with caches that name
the far end of every link and the socket of the link for it; all other steps, frames and servers are
arbitrary. -/
theorem arp_resolves (N : WiredNetwork Node) {s s' : ArpNet Node} {l : List (ArpAction Node)}
    (h : s.Reachable N.toNetwork) (hr : CalmRun N.toNetwork s l s')
    (hall : ∀ x i y j, N.link x i y j → ∃ f env, .arrive f y env ∈ l ∧ f.sender = x ∧
      (i.rawSocket : ℤ) = f.sock ∧ f.package.IsArp)
    {x : Node} {server : MIPDServer} (hx : s'.servers x = some server) :
    N.Resolves x server.cache ∧
    ∀ i y j, N.link x i y j → server.cache.queryMipAddressSrcSocket j.mipAddress = i.rawSocket := by
  have hserver := (ArpNet.sound_of_reachable (hr.reachable h)).servers x server hx
  have hresolves : ∀ i y j, N.link x i y j →
      server.cache.queryMipAddressSrcSocket j.mipAddress = i.rawSocket ∧
        server.cache.queryCacheSocketMipAddress i.rawSocket = j.mipAddress := by
    intro i y j hl
    obtain ⟨f, env, hf, rfl, hsock, harp⟩ := hall y j x i (N.link_symm hl)
    obtain ⟨t, ht, hk⟩ := hr.knows h hf harp (N.link_symm hl) hsock
    obtain rfl := Option.some.inj (hx.symm.trans ht)
    exact hserver.resolves_of_knows hl hk
  exact ⟨fun i y j hl => (hresolves i y j hl).2, fun i y j hl => (hresolves i y j hl).1⟩

/-! ## a request and its answer -/

/-- **A request is answered** on the interface that it has arrived on. -/
theorem ArpNet.Sound.answer (hs : s.Sound N.toNetwork) {f : Frame Node} (hf : f ∈ s.sent)
    (hreq : f.package.mHeader.tra = 1) {i j : InterfaceRecord} (hl : N.link f.sender i y j)
    (hsock : (i.rawSocket : ℤ) = f.sock) (hy : s.servers y = some server) (env : Env) :
    ∃ s', ArpStep N.toNetwork s (.arrive f y env) s' ∧ ∃ answer, s'.sent = s.sent ++ [answer] ∧
      answer.sender = y ∧ (j.rawSocket : ℤ) = answer.sock ∧ answer.package.mHeader.tra = 0 := by
  obtain ⟨server', effects, h⟩ := hs.handled hf (Or.inr hreq) hl hsock hy (fun _ => 0) env
  refine ⟨_, ArpStep.arrive hf hl hsock hy h, ?_⟩
  have hrecv := hs.received hf (Or.inr hreq) env.behind fun _ => 0
  have hj := (hs.servers y server hy).isSocketInTable hl
  have hne : ∀ tra : BitVec 3, f.package.mHeader.tra = tra → tra = 1 := fun tra h =>
    h.symm.trans hreq
  rw [MIPDServer.handleEvent_of_receive hj hrecv] at h
  cases MIPDServer.frameOutcome hj h with
  | learned htra _ _ _ => exact absurd (hne 0 htra) (by decide)
  | table htra => exact absurd (hne 2 htra) (by decide)
  | transport htra _ => exact absurd (hne 3 htra) (by decide)
  | dropped _ hrequest => exact absurd hreq hrequest
  | @answered i' rc cache response _ hi hfd hresponse _ =>
    exact ⟨⟨y, i'.rawSocket, response⟩, rfl, rfl, hfd.symm, MIPDServer.tra_createRaw hresponse⟩

/-- a request and its answer arrive, one after the other -/
theorem ArpNet.Sound.exchange (hs : s.Sound N.toNetwork) {f : Frame Node} (hf : f ∈ s.sent)
    (hreq : f.package.mHeader.tra = 1) {i j : InterfaceRecord} (hl : N.link f.sender i y j)
    (hsock : (i.rawSocket : ℤ) = f.sock) (hx : (s.servers f.sender).isSome)
    (hy : (s.servers y).isSome) (env env' : Env) :
    ∃ answer s₁ s₂, ArpStep N.toNetwork s (.arrive f y env) s₁ ∧
      ArpStep N.toNetwork s₁ (.arrive answer f.sender env') s₂ ∧ s₁.sent = s.sent ++ [answer] ∧
      answer.sender = y ∧ (j.rawSocket : ℤ) = answer.sock ∧ answer.package.mHeader.tra = 0 := by
  obtain ⟨server, hserver⟩ := Option.isSome_iff_exists.mp hy
  obtain ⟨s₁, h₁, answer, hsent, rfl, hsock', htra⟩ := hs.answer hf hreq hl hsock hserver env
  have hx₁ : (s₁.servers f.sender).isSome := by
    cases h₁ with
    | arrive _ _ _ _ _ => exact ArpNet.isSome_after hx
  obtain ⟨sx, hsx⟩ := Option.isSome_iff_exists.mp hx₁
  have hl' := N.link_symm hl
  have hanswer : answer ∈ s₁.sent := by
    rw [hsent]
    exact List.mem_append_right _ (List.mem_singleton_self answer)
  obtain ⟨server', effects, hok⟩ :=
    (h₁.sound hs).handled hanswer (Or.inl htra) hl' hsock' hsx (fun _ => 0) env'
  exact ⟨answer, s₁, _, h₁, ArpStep.arrive hanswer hl' hsock' hsx hok, hsent, rfl, hsock', htra⟩

/-- **A request and its answer introduce two neighbours.**  In every reachable state in which both
are up and a request of `x` is under way on their link, the request can arrive; its answer, the one
frame that is sent then, goes out on the link and can arrive after that; and then each of the two finds
the other, on the socket of the link. -/
theorem arp_exchange (N : WiredNetwork Node) {s : ArpNet Node} (h : s.Reachable N.toNetwork)
    {x y : Node} {i j : InterfaceRecord} (hl : N.link x i y j) {f : Frame Node} (hf : f ∈ s.sent)
    (hfx : f.sender = x) (hsock : (i.rawSocket : ℤ) = f.sock) (hreq : f.package.mHeader.tra = 1)
    (hx : (s.servers x).isSome) (hy : (s.servers y).isSome) (env env' : Env) :
    ∃ answer s₁ s₂, ArpStep N.toNetwork s (.arrive f y env) s₁ ∧
      s₁.sent = s.sent ++ [answer] ∧ answer.sender = y ∧ (j.rawSocket : ℤ) = answer.sock ∧
      answer.package.mHeader.tra = 0 ∧ ArpStep N.toNetwork s₁ (.arrive answer x env') s₂ ∧
      ∃ sx sy, s₂.servers x = some sx ∧ s₂.servers y = some sy ∧
        sx.cache.queryMipAddressSrcSocket j.mipAddress = i.rawSocket ∧
        sy.cache.queryMipAddressSrcSocket i.mipAddress = j.rawSocket := by
  subst hfx
  have hs := ArpNet.sound_of_reachable h
  obtain ⟨answer, s₁, s₂, h₁, h₂, hsent, rfl, hsock', htra⟩ :=
    hs.exchange hf hreq hl hsock hx hy env env'
  have hs₁ := h₁.sound hs
  have hs₂ := h₂.sound hs₁
  have hl' := N.link_symm hl
  -- `y` has learned in the first step and keeps it in the second, `x` learns in the second
  obtain ⟨sy, hsy, hky⟩ := h₂.knows trivial (h₁.introduces hs (Or.inr hreq) hl hsock)
  obtain ⟨sx, hsx, hkx⟩ := h₂.introduces hs₁ (Or.inl htra) hl' hsock'
  exact ⟨answer, s₁, s₂, h₁, hsent, rfl, hsock', htra, h₂, sx, sy, hsx, hsy,
    ((hs₂.servers _ sx hsx).resolves_of_knows hl hkx).1,
    ((hs₂.servers _ sy hsy).resolves_of_knows hl' hky).1⟩

end

/-! ## two mipds and one link -/

theorem wiredPair_link : wiredPair.link false (pairInterface false) true (pairInterface true) :=
  ⟨by decide, rfl, rfl⟩

theorem arp_exchange_pair : ∃ (s : ArpNet Bool) (server : MIPDServer),
    s.servers false = some server ∧ server.cache.queryMipAddressSrcSocket 20 = 3 := by
  obtain ⟨s, hs, hx, hy, f, hf, hfx, hsock, hreq⟩ := exists_booted
  obtain ⟨_, _, s₂, _, _, _, _, _, _, sx, _, hsx, _, hquery, _⟩ :=
    arp_exchange wiredPair hs wiredPair_link hf hfx hsock hreq hx hy quietEnv quietEnv
  exact ⟨s₂, sx, hsx, hquery⟩

theorem arp_resolves_pair : ∃ (s : ArpNet Bool) (server : MIPDServer),
    s.servers false = some server ∧ wiredPair.Resolves false server.cache := by
  obtain ⟨s, hs, hx, hy, f, hf, hfx, hsock, hreq⟩ := exists_booted
  have hl : wiredPair.link f.sender (pairInterface false) true (pairInterface true) :=
    hfx ▸ wiredPair_link
  obtain ⟨answer, s₁, s₂, h₁, h₂, _, hanswer, hsock', htra⟩ := (ArpNet.sound_of_reachable hs).exchange
    hf hreq hl hsock (hfx ▸ hx) hy quietEnv quietEnv
  have hrun : CalmRun wiredPair.toNetwork s
      ([] ++ [.arrive f true quietEnv] ++ [.arrive answer f.sender quietEnv]) s₂ :=
    CalmRun.snoc (CalmRun.snoc CalmRun.nil trivial h₁) trivial h₂
  have hup : (s₂.servers false).isSome := by
    cases h₂ with
    | arrive _ _ _ _ _ =>
      refine ArpNet.isSome_after ?_
      cases h₁ with
      | arrive _ _ _ _ _ => exact ArpNet.isSome_after hx
  obtain ⟨server, hserver⟩ := Option.isSome_iff_exists.mp hup
  refine ⟨s₂, server, hserver, (arp_resolves wiredPair hs hrun ?_ hserver).1⟩
  intro x i y j hl
  obtain ⟨hxy, rfl, rfl⟩ := hl
  cases x with
  | false =>
    obtain rfl : y = true := by simpa using hxy
    exact ⟨f, quietEnv, by simp, hfx, hsock, Or.inr hreq⟩
  | true =>
    obtain rfl : y = false := by simpa using hxy
    exact ⟨answer, quietEnv, by simp [hfx], hanswer, hsock', Or.inl htra⟩

end MipStack
