import LdkSample.Lives.Node

/-!
# Claimed payments across lives

Every file of the inbound store that a life leaves accounts for the claims handled before it was
written (`accounted_lives`), so a payment whose claim has been handled to the end stays a success in
every later life (`claim_recorded`): no invoice is recorded over it, and no crash loses it.
-/

namespace LdkSample

namespace Lives

open Startup Inbound

variable {L : Lightning}

/-- A start can open the file of received payments, if there is one. -/
def OpensReceived (k : LifeLabel) : Prop := k.StartsWith fun e => e.inboundFault = none

/-- The entry of `h` is what one of the claims of `h` in `handled` left. -/
def ClaimedIn (h : PaymentHash) (inbound : InboundPaymentInfoStorage)
    (handled : List PaymentClaimed) : Prop :=
  ∃ e ∈ handled, e.paymentHash = h ∧ ∃ p, inbound.payments.lookup h = some p ∧
    p.status = .succeeded ∧ p.preimage = e.purpose.secrets.1 ∧ p.secret = e.purpose.secrets.2

/-- The payment is claimed, in memory and in every file a crash may leave. -/
def Claimed (h : PaymentHash) : Phase → Prop
  | .up n => ClaimedIn h n.inbound.state.inbound n.inbound.state.handled ∧
      ∀ f ∈ n.inbound.crashFiles, ClaimedIn h (readInboundPaymentInfo f.file) f.handled
  | .down d => ClaimedIn h (readInboundPaymentInfo d.inbound.file) d.inbound.handled

theorem claimedIn_of_accounts {m : InboundPaymentInfoStorage} {issued : List Issued}
    {handled : List PaymentClaimed} (ha : Accounts m issued handled) {e : PaymentClaimed}
    (he : e ∈ handled) : ClaimedIn e.paymentHash m handled := by
  cases hl : lastClaim e.paymentHash handled with
  | none => exact absurd rfl (lastClaim_eq_none.mp hl e he)
  | some e' =>
    obtain ⟨hm, hh⟩ := mem_of_lastClaim hl
    exact ⟨e', hm, hh, ha.claimed _ _ hl⟩

/-! ## The accounts of every life -/

theorem boot_diskInv {e : StartEnv} {d d' : Disk} {loaded : Loaded}
    (hopen : e.inboundFault = none) (hd : d.inbound.Accounted) (h : LoadedIn e d loaded d') :
    DiskInv (up loaded d').inbound := by
  have hread : loaded.1 = readInboundPaymentInfo d.inbound.file := by
    rw [h.fst, loadedInbound, hopen]
    cases d.inbound.file with
    | none => rfl
    | some bytes => rfl
  show DiskInv (Stored.boot loaded.1 d'.inbound)
  rw [hread, h.inbound]
  exact diskInv_boot hd

/-- The file accounts for the claims handled before it was written, `e` among them. -/
def AccountedDown (e : PaymentClaimed) (d : Disk) : Prop :=
  d.inbound.Accounted ∧ e ∈ d.inbound.handled

structure AccountedUp (e : PaymentClaimed) (n : Node) : Prop where
  inv : DiskInv n.inbound
  handled : e ∈ n.inbound.state.handled
  files : AccountedFrom [e] n.inbound.log.durable n.inbound.log.files

theorem claimed_of_accounted {e : PaymentClaimed} {t : Phase}
    (h : Machine.Phase.Holds (AccountedUp e) (AccountedDown e) t) : Claimed e.paymentHash t := by
  cases t with
  | up n =>
    obtain ⟨m, hinv⟩ := h.inv.inv
    refine ⟨claimedIn_of_accounts hinv.accounts h.handled, fun f hf => ?_⟩
    exact claimedIn_of_accounts (h.inv.accounted f (List.mem_of_mem_drop hf))
      (h.files f hf e List.mem_cons_self)
  | down d => exact claimedIn_of_accounts h.1 h.2

/-- The files of a life account for its claims, from the first start on. -/
theorem accounted_lives {x t : Phase} {ks : List LifeLabel} (hopen : ∀ k ∈ ks, OpensReceived k)
    (hx : Machine.Phase.Holds (fun n : Node => DiskInv n.inbound)
      (fun d : Disk => d.inbound.Accounted) x)
    (hr : (lives L).run x ks = some t) :
    Machine.Phase.Holds (fun n : Node => DiskInv n.inbound)
      (fun d : Disk => d.inbound.Accounted) t := by
  refine Machine.Service.lives_inv_of (fun e => e.inboundFault = none) (fun n l n' hn hs => ?_) (fun n hn d hd => ?_)
    (fun e hok => .exact fun d hd => ?_) hx hopen hr
  · cases step_cases hs with
    | inbound hfit hi => exact diskInv_step hn hfit hi
    | outbound => exact hn
    | persistManager => exact hn
  · exact hn.accounted _ (List.mem_of_mem_drop (mem_crash hd).2)
  · have hkept {d' : Disk} (h : Started e d d') : d'.inbound.Accounted := by
      rw [h.inbound]
      exact hd
    refine (start_spec e d).post (fun r d' h => ?_) fun d' h => hkept h
    cases r with
    | none => exact hkept h
    | some loaded => exact boot_diskInv hok hd h

theorem claim_lives {e : PaymentClaimed} {x t : Phase} {ks : List LifeLabel}
    (hopen : ∀ k ∈ ks, OpensReceived k)
    (hx : Machine.Phase.Holds (AccountedUp e) (AccountedDown e) x)
    (hr : (lives L).run x ks = some t) : Machine.Phase.Holds (AccountedUp e) (AccountedDown e) t := by
  refine Machine.Service.lives_inv_of (fun e => e.inboundFault = none) (fun n l n' hn hs => ?_) (fun n hn d hd => ?_)
    (fun env hok => .exact fun d hd => ?_) hx hopen hr
  · cases step_cases hs with
    | inbound hfit hi =>
      refine ⟨diskInv_step hn.inv hfit hi, handled_step hn.handled hi, ?_⟩
      refine accountedFrom_step hn.files (fun e' he' => ?_) hi
      rw [List.mem_singleton.mp he']
      exact hn.handled
    | outbound => exact ⟨hn.inv, hn.handled, hn.files⟩
    | persistManager => exact ⟨hn.inv, hn.handled, hn.files⟩
  · have hf := (mem_crash hd).2
    exact ⟨hn.inv.accounted _ (List.mem_of_mem_drop hf), hn.files _ hf e List.mem_cons_self⟩
  · have hkept {d' : Disk} (h : Started env d d') : AccountedDown e d' := by
      unfold AccountedDown
      rw [h.inbound]
      exact hd
    refine (start_spec env d).post (fun r d' h => ?_) fun d' h => hkept h
    cases r with
    | none => exact hkept h
    | some loaded =>
      refine ⟨boot_diskInv hok hd.1 h, ?_, fun f hf e' he' => ?_⟩
      · show e ∈ d'.inbound.handled
        rw [h.inbound]
        exact hd.2
      · have hmem : f ∈ [d'.inbound] := List.mem_of_mem_drop hf
        rw [List.mem_singleton.mp hmem, List.mem_singleton.mp he', h.inbound]
        exact hd.2

/-- **A claimed payment stays claimed**: once the handler of its claim has finished, it is a success
with the secrets of a claim of its hash, in that life and in every later one. -/
theorem claim_recorded (d : Disk) (as bs : List LifeLabel) (e : PaymentClaimed) {n : Node}
    {t : Phase} (hd : d.inbound.Accounted) (h₁ : (lives L).run (.down d) as = some (.up n))
    (hidle : n.inbound.state.handler = .idle) (he : e ∈ n.inbound.state.handled)
    (h₂ : (lives L).run (.up n) bs = some t) (hopen : ∀ k ∈ as ++ bs, OpensReceived k) :
    Claimed e.paymentHash t := by
  have hn : DiskInv n.inbound :=
    accounted_lives (x := .down d) (fun k hk => hopen k (List.mem_append_left _ hk)) hd h₁
  have hx : Machine.Phase.Holds (AccountedUp e) (AccountedDown e) (.up n) := by
    refine ⟨hn, he, fun f hf e' he' => ?_⟩
    rw [List.mem_singleton.mp he']
    exact hn.finished_on_disk hidle f hf e he
  exact claimed_of_accounted
    (claim_lives (fun k hk => hopen k (List.mem_append_right _ hk)) hx h₂)

section Examples

def claimedHash : PaymentHash := ⟨Vector.replicate 32 1⟩

def spontaneous : PaymentClaimed :=
  ⟨claimedHash, .spontaneousPayment ⟨Vector.replicate 32 3⟩, 7⟩

/-- The first life receives a payment and finishes its claim. -/
def claimOne : List LifeLabel :=
  [.start noStartFault] ++ [.claim spontaneous, .eventLock, .eventUpsert, .eventWrite, .eventUnlock,
    .eventWritten].map fun l => .step (.inbound l)

theorem seeded_accounted : seeded.inbound.Accounted := .empty

end Examples

set_option maxRecDepth 4096 in
/-- The node is killed and starts again. -/
theorem claim_recorded_run : ∃ n t,
    (lives storedAtOld).run (.down seeded) claimOne = some (.up n) ∧
    (lives storedAtOld).run (.up n) killAndStart = some t ∧ Claimed claimedHash t := by
  refine ⟨_, _, rfl, rfl, claim_recorded (L := storedAtOld) seeded claimOne killAndStart
    spontaneous seeded_accounted rfl rfl ?_ rfl ?_⟩
  · exact List.mem_cons_self
  · unfold claimOne killAndStart
    simp only [List.map_cons, List.map_nil, List.cons_append, List.nil_append, List.forall_mem_cons]
    exact ⟨rfl, trivial, trivial, trivial, trivial, trivial, trivial, trivial, rfl,
      List.forall_mem_nil _⟩

end Lives

end LdkSample
