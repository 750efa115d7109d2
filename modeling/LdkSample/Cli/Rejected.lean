import LdkSample.Cli.OpenChannel

/-!
# Rejected commands

A line that is answered with an argument error has had no effect, except on two ways through
`openchannel` (`Faulty`): the amount is looked at after the peer has been dialled, and an invalid
flag is answered with an error and left out, as the `continue` is the one of the inner loop.
-/

namespace LdkSample

namespace Cli

variable {K : Crates} {e : Env} {line : String} {log : List Act} {w t : World}

/-- Where an argument error has been printed, there is no effect. -/
def Harmless (log : List Act) (w : World) : Prop :=
  ∀ acts, w.log = log ++ acts → (∃ a ∈ acts, a.isArgError = true) → ∀ a ∈ acts, a.isEffect = false

/-- `openchannel`, with a peer that is reached, and either it was dialled and the amount is not a
number, or the amount is one and some flag is invalid. -/
def Faulty (K : Crates) (e : Env) (line : String) : Prop :=
  ∃ word amt flags key, splitWhitespace line = "openchannel" :: word :: amt :: flags ∧
    PeerReached K e word key ∧
    ((∃ kind, parseU64 amt = .error kind) ∧ e.connected key = false ∨
      (∃ sat, parseU64 amt = .ok sat) ∧ ∃ flag ∈ flags, isFlag flag = false)

theorem Tame.harmless {q : Act → Bool} (h : Tame q log w) : Harmless log w := by
  intro acts hlog ⟨err, herr, hkind⟩ a ha
  rcases h with h | h
  · have hr := h.acts hlog a ha
    simpa [rejects] using hr
  · have hp := (Bool.and_eq_true_iff.mp (h.acts hlog err herr)).1
    rw [hkind] at hp
    cases hp

theorem harmless_of_acts {acts : List Act} (hlog : w.log = log ++ acts)
    (h : (∃ a ∈ acts, a.isArgError = true) → ∀ a ∈ acts, a.isEffect = false) : Harmless log w := by
  intro acts' hlog'
  rw [hlog] at hlog'
  cases List.append_cancel_left hlog'
  exact h

theorem ReachActs.no_argError {word : String} {key : Node.PublicKey} {acts : List Act}
    (h : ReachActs K e word key acts) {a : Act} (ha : a ∈ acts) : a.isArgError = false := by
  rcases h.only_key ha with ⟨_, rfl⟩ | ⟨_, rfl, -⟩
  · rfl
  · rfl

theorem OpenActs.harmless {word amt : String} {flags : List String} {key : Node.PublicKey}
    {opened : List Act}
    (hf : ¬ ((∃ kind, parseU64 amt = .error kind) ∧ e.connected key = false ∨
      (∃ sat, parseU64 amt = .ok sat) ∧ ∃ flag ∈ flags, isFlag flag = false))
    (h : OpenActs K e word amt flags key opened) :
    (∃ a ∈ opened, a.isArgError = true) → ∀ a ∈ opened, a.isEffect = false := by
  have hnone {errs : List Act} {sat : UInt64} (hamt : parseU64 amt = .ok sat)
      (herrs : FlagErrors flags errs) : errs = [] := by
    by_contra hne
    exact hf (.inr ⟨⟨sat, hamt⟩, herrs.invalid hne⟩)
  cases h with
  | amount hacts hamt =>
    intro _
    cases hacts with
    | connected _ => simp [Act.isEffect]
    | dialled hc _ _ _ => exact absurd (.inl ⟨⟨_, hamt⟩, hc⟩) hf
  | flags hacts hamt herrs =>
    rintro ⟨a, ha, herr⟩
    rw [hnone hamt herrs, List.append_nil] at ha
    rw [hacts.no_argError ha] at herr
    cases herr
  | called hacts hamt herrs hpost =>
    rintro ⟨a, ha, herr⟩
    rw [hnone hamt herrs, List.append_nil] at ha
    rcases List.mem_append.mp ha with ha | ha
    · rw [hacts.no_argError ha] at herr
      cases herr
    · rcases List.mem_cons.mp ha with rfl | ha
      · cases herr
      · obtain ⟨text, rfl⟩ := hpost a ha
        cases herr

theorem harmless_of_not_faulty (hf : ¬ Faulty K e line)
    (ht : Crash.Leaves (handleLine K e line) w t) : Harmless w.log t := by
  have hof {q : Act → Bool} (h : TameCmd q (handleLine K e line)) : Harmless w.log t :=
    ((h w).leaves_of rfl (.inl (only_refl rejects w)) ht).harmless
  rcases handleLine_cases K e line with ⟨words, hline, hcmd⟩ | ⟨words, -, hcmd⟩ |
    ⟨words, -, hcmd⟩ | htame
  · rw [hcmd] at ht
    rcases openState_of_leaves ht with
      htame | ⟨word, amt, flags, key, acts, rfl, hreached, hlog, hopen⟩
    · exact htame.harmless
    · refine harmless_of_acts hlog (hopen.harmless fun h => hf ?_)
      exact ⟨word, amt, flags, key, hline, hreached, h⟩
  · exact hof (hcmd ▸ sendpayment_tame words)
  · exact hof (hcmd ▸ (keysend_tame words).map _)
  · exact hof htame.tame

/-! ## Every faulty line has an effect -/

theorem not_harmless_of_mem {acts : List Act} {a b : Act} (hlog : w.log = log ++ acts)
    (ha : a ∈ acts) (herr : a.isArgError = true) (hb : b ∈ acts) (heff : b.isEffect = true) :
    ¬ Harmless log w := by
  intro h
  have := h acts hlog ⟨a, ha, herr⟩ b hb
  rw [heff] at this
  cases this

/-- The peer was dialled, then the amount is rejected. -/
theorem amount_faulty {word amt : String} {flags : List String} {key : Node.PublicKey}
    {kind : IntErrorKind} (hreached : PeerReached K e word key) (hamt : parseU64 amt = .error kind)
    (hc : e.connected key = false) (w : World) :
    ∃ t, (openchannel K e (word :: amt :: flags)).exec w = some ((), t) ∧ ¬ Harmless w.log t := by
  obtain ⟨s, hs⟩ := reachPeer_exec hreached w
  obtain ⟨-, acts, hacts, hlog⟩ := reachPeer_inv hs
  obtain ⟨addr, hdial⟩ : ∃ addr, .connectOutbound key addr ∈ acts := by
    cases hacts with
    | connected hc' =>
      rw [hc] at hc'
      cases hc'
    | @dialled addr ticks _ _ _ _ => exact ⟨addr, by simp⟩
  refine ⟨{ s with log := s.log ++ [.argError .channelAmount] }, ?_, ?_⟩
  · refine (Crash.exec_bind_some hs).trans ?_
    dsimp only
    rw [hamt]
    rfl
  · refine @not_harmless_of_mem _ _ (acts ++ [.argError .channelAmount]) (.argError .channelAmount)
      (.connectOutbound key addr) ?_ (by simp) rfl (List.mem_append_left _ hdial) rfl
    show s.log ++ _ = _
    rw [hlog, List.append_assoc]

/-- A flag is rejected, then the channel is opened. -/
theorem flag_faulty {word amt flag : String} {flags : List String} {key : Node.PublicKey}
    {sat : UInt64} (hreached : PeerReached K e word key) (hamt : parseU64 amt = .ok sat)
    (hm : flag ∈ flags) (hflag : isFlag flag = false) (w : World) :
    ∃ t, (openchannel K e (word :: amt :: flags)).exec w = some ((), t) ∧ ¬ Harmless w.log t := by
  obtain ⟨s, hs⟩ := reachPeer_exec hreached w
  obtain ⟨-, acts, -, hlog⟩ := reachPeer_inv hs
  obtain ⟨u, errs, hu, hulog, herrs, hall⟩ := readFlags_exec flags false false s
  have hne : errs ≠ [] := by
    intro he
    rw [hall he flag hm] at hflag
    cases hflag
  obtain ⟨err, herr⟩ := List.exists_mem_of_ne_nil errs hne
  let call := Act.createChannel key sat (lastValue "--public" false flags)
    (lastValue "--with-anchors" false flags)
  obtain ⟨t, ht, text, htlog⟩ : ∃ t, (openChannel e key sat (lastValue "--public" false flags)
      (lastValue "--with-anchors" false flags)).exec u = some ((), t) ∧
      ∃ text, t.log = u.log ++ [call] ++ [.print text] := by
    unfold openChannel
    rw [Crash.exec_bind_some (note_exec call u)]
    cases e.createChannelOk with
    | true => exact ⟨_, rfl, _, rfl⟩
    | false => exact ⟨_, rfl, _, rfl⟩
  refine ⟨t, ?_, ?_⟩
  · refine (Crash.exec_bind_some hs).trans ?_
    dsimp only
    rw [hamt]
    exact (Crash.exec_bind_some hu).trans ht
  · refine @not_harmless_of_mem _ _ (acts ++ (errs ++ ([call] ++ [.print text]))) err call ?_ ?_ ?_ ?_ rfl
    · rw [htlog, hulog, hlog]
      simp only [List.append_assoc]
    · simp [herr]
    · rw [herrs.error err herr]
      rfl
    · simp

theorem not_harmless_of_faulty (hf : Faulty K e line) (w : World) :
    ∃ t, Crash.Leaves (handleLine K e line) w t ∧ ¬ Harmless w.log t := by
  obtain ⟨word, amt, flags, key, hline, hreached, h⟩ := hf
  have hcmd : handleLine K e line =
      openchannel K e (word :: amt :: flags) >>= fun _ => pure .readCommand := by
    unfold handleLine
    rw [hline]
    rfl
  have hleaves {t : World} (ht : (openchannel K e (word :: amt :: flags)).exec w = some ((), t)) :
      Crash.Leaves (handleLine K e line) w t :=
    .inr (.inr ⟨.readCommand, by rw [hcmd, Crash.exec_bind_some ht]; rfl⟩)
  rcases h with ⟨⟨kind, hamt⟩, hc⟩ | ⟨⟨sat, hamt⟩, flag, hm, hflag⟩
  · obtain ⟨t, ht, hh⟩ := amount_faulty hreached hamt hc w
    exact ⟨t, hleaves ht, hh⟩
  · obtain ⟨t, ht, hh⟩ := flag_faulty hreached hamt hm hflag w
    exact ⟨t, hleaves ht, hh⟩

/-- **A rejected command has no effect**, exactly for the lines that are not faulty. -/
theorem rejected_harmless_iff (K : Crates) (e : Env) (line : String) (w : World) :
    (∀ t, Crash.Leaves (handleLine K e line) w t → Harmless w.log t) ↔ ¬ Faulty K e line := by
  constructor
  · intro h hf
    obtain ⟨t, ht, hh⟩ := not_harmless_of_faulty hf w
    exact hh (h t ht)
  · intro hf t ht
    exact harmless_of_not_faulty hf ht

/-- A mistyped flag: the error is printed and the channel opened all the same. -/
theorem rejected_flag_opens : ¬ ∀ K e line w t, Crash.Leaves (handleLine K e line) w t →
    Harmless w.log t := by
  intro h
  let line := "openchannel 0279be667ef9dcbbac55a06295ce870b07029bfcdb2dce28d959f2815b16f81798" ++
    "@127.0.0.1:9735 50000 --with-anchor"
  have hrun : ((handleLine sampleCrates sampleEnv line).exec noPayments).map (·.2.log) =
      some [.peerByNodeId samplePeer false,
        .connectOutbound samplePeer (.v4 ⟨#[127, 0, 0, 1], rfl⟩ 9735),
        .peerByNodeId samplePeer false, .peerByNodeId samplePeer true, .argError .booleanFlag,
        .createChannel samplePeer 50000 false false,
        .print "EVENT: initiated channel with peer"] := by decide +kernel
  obtain ⟨⟨next, t⟩, hexec, hlog⟩ := Option.map_eq_some_iff.mp hrun
  have hh := h sampleCrates sampleEnv line noPayments t (.inr (.inr ⟨next, hexec⟩))
  exact @not_harmless_of_mem [] t _ (.argError .booleanFlag)
    (.createChannel samplePeer 50000 false false) hlog (by simp) rfl (by simp) rfl hh

end Cli

end LdkSample
