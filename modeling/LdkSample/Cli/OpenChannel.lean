import LdkSample.Cli.Acts

/-!
# Opening a channel

What `openchannel` does with the words of its line. `reachPeer` finds or dials the peer of the
first word, the loop over the flags is a fold in which the last flag of a name decides, and
`openchannel_spec` puts the log of every state of the command together from the two.
-/

namespace LdkSample

namespace Cli

open Node (PublicKey SocketAddr)

variable {K : Crates} {e : Env} {word : String} {key : PublicKey} {w s t : World}

/-! ## Reaching the peer -/

/-- The key before the first `@` of a peer word. -/
def peerKey (K : Crates) (word : String) : Option PublicKey :=
  toCompressedPubkey K.publicKeyFromSlice (String.ofList (splitParts '@' word.toList).1)

def peerInfo (K : Crates) (word : String) : Except PeerInfoError (PublicKey × SocketAddr) :=
  parsePeerInfo K.publicKeyFromSlice K.toSocketAddrs word

/-- The outer parse and `parse_peer_info` agree. -/
theorem peerKey_of_peerInfo {info : PublicKey × SocketAddr} (h : peerInfo K word = .ok info) :
    peerKey K word = some info.1 := by
  unfold peerInfo parsePeerInfo at h
  dsimp only at h
  split at h
  · cases h
  · split at h
    · split at h
      · cases h
      · next pubkey hkey =>
        cases h
        exact hkey
    · cases h

/-- Whether the peer turns up before the connection closes. -/
def connects : List Round → Bool
  | [] => false
  | .closed :: _ => false
  | .tick connected :: rounds => connected || connects rounds

def Env.dialSucceeds (e : Env) : Bool :=
  match e.connectOutbound with
  | some rounds => connects rounds
  | none => false

/-- The peer of `word` is connected, or is not and can be dialled. -/
inductive PeerReached (K : Crates) (e : Env) (word : String) (key : PublicKey) : Prop where
  | listed : (splitParts '@' word.toList).2 = [] → peerKey K word = some key →
      e.connected key = true → PeerReached K e word key
  | address {addr : SocketAddr} : peerInfo K word = .ok (key, addr) →
      (e.connected key = true ∨ e.dialSucceeds = true) → PeerReached K e word key

/-- What is done to reach the peer. -/
inductive ReachActs (K : Crates) (e : Env) (word : String) (key : PublicKey) :
    List Act → Prop where
  | connected : e.connected key = true → ReachActs K e word key [.peerByNodeId key true]
  | dialled {addr : SocketAddr} {ticks : List Act} : e.connected key = false →
      e.dialSucceeds = true → peerInfo K word = .ok (key, addr) →
      (∀ a ∈ ticks, a = .peerByNodeId key false) →
      ReachActs K e word key
        (.peerByNodeId key false :: .connectOutbound key addr :: ticks ++ [.peerByNodeId key true])

theorem PeerReached.key_eq (h : PeerReached K e word key) : peerKey K word = some key := by
  cases h with
  | listed _ hkey _ => exact hkey
  | address hinfo _ => exact peerKey_of_peerInfo hinfo

theorem note_exec (a : Act) (s : World) :
    (note a).exec s = some ((), { s with log := s.log ++ [a] }) := rfl

theorem awaitConnection_inv {rounds : List Round}
    (h : (awaitConnection key rounds).exec s = some (true, t)) :
    connects rounds = true ∧ ∃ ticks, (∀ a ∈ ticks, a = .peerByNodeId key false) ∧
      t.log = s.log ++ (ticks ++ [.peerByNodeId key true]) := by
  induction rounds generalizing s with
  | nil => cases h
  | cons round rounds ih =>
    cases round with
    | closed => cases h
    | tick connected =>
      obtain ⟨_, s₁, h₁, h₂⟩ := Crash.exec_bind_inv h
      cases h₁
      cases connected with
      | true =>
        cases h₂
        exact ⟨rfl, [], fun _ ha => (nomatch ha), rfl⟩
      | false =>
        obtain ⟨hc, ticks, hticks, hlog⟩ := ih h₂
        refine ⟨hc, .peerByNodeId key false :: ticks, ?_, ?_⟩
        · intro a ha
          rcases List.mem_cons.mp ha with rfl | ha
          · rfl
          · exact hticks a ha
        · rw [hlog]
          show s.log ++ [_] ++ _ = _
          rw [List.append_assoc]
          rfl

theorem awaitConnection_exec {rounds : List Round} (h : connects rounds = true) (s : World) :
    ∃ t, (awaitConnection key rounds).exec s = some (true, t) := by
  induction rounds generalizing s with
  | nil => cases h
  | cons round rounds ih =>
    cases round with
    | closed => cases h
    | tick connected =>
      cases connected with
      | true => exact ⟨_, rfl⟩
      | false =>
        obtain ⟨t, ht⟩ := ih h { s with log := s.log ++ [.peerByNodeId key false] }
        exact ⟨t, ht⟩

theorem doConnectPeer_exec (h : e.dialSucceeds = true) (addr : SocketAddr) (s : World) :
    ∃ t, (doConnectPeer e key addr).exec s = some (true, t) := by
  unfold Env.dialSucceeds at h
  unfold doConnectPeer
  cases hr : e.connectOutbound with
  | none =>
    rw [hr] at h
    cases h
  | some rounds =>
    rw [hr] at h
    exact awaitConnection_exec h _

theorem doConnectPeer_inv {addr : SocketAddr}
    (h : (doConnectPeer e key addr).exec s = some (true, t)) :
    e.dialSucceeds = true ∧ ∃ ticks, (∀ a ∈ ticks, a = .peerByNodeId key false) ∧
      t.log = s.log ++ (.connectOutbound key addr :: ticks ++ [.peerByNodeId key true]) := by
  obtain ⟨_, s₁, h₁, h₂⟩ := Crash.exec_bind_inv h
  cases h₁
  unfold Env.dialSucceeds
  cases hr : e.connectOutbound with
  | none =>
    rw [hr] at h₂
    cases h₂
  | some rounds =>
    rw [hr] at h₂
    obtain ⟨hc, ticks, hticks, hlog⟩ := awaitConnection_inv h₂
    refine ⟨hc, ticks, hticks, ?_⟩
    rw [hlog]
    show s.log ++ [_] ++ _ = _
    rw [List.append_assoc]
    rfl

theorem connectPeerIfNecessary_exec (h : e.connected key = true ∨ e.dialSucceeds = true)
    (addr : SocketAddr) (s : World) :
    ∃ t, (connectPeerIfNecessary e key addr).exec s = some (true, t) := by
  unfold connectPeerIfNecessary peerByNodeId
  cases hc : e.connected key with
  | true => exact ⟨_, rfl⟩
  | false =>
    have hd : e.dialSucceeds = true := by
      rcases h with h | h
      · rw [hc] at h
        cases h
      · exact h
    obtain ⟨t, ht⟩ := doConnectPeer_exec hd addr { s with log := s.log ++ [.peerByNodeId key false] }
    exact ⟨t, Crash.exec_bind_some ht⟩

theorem connectPeerIfNecessary_inv {addr : SocketAddr} (hinfo : peerInfo K word = .ok (key, addr))
    (h : (connectPeerIfNecessary e key addr).exec s = some (true, t)) :
    PeerReached K e word key ∧ ∃ acts, ReachActs K e word key acts ∧ t.log = s.log ++ acts := by
  unfold connectPeerIfNecessary peerByNodeId at h
  cases hc : e.connected key with
  | true =>
    rw [hc] at h
    cases h
    exact ⟨.address hinfo (.inl hc), _, .connected hc, rfl⟩
  | false =>
    rw [hc] at h
    obtain ⟨ok, s₁, h₁, h₂⟩ := Crash.exec_bind_inv (s := { s with log := s.log ++ [_] }) h
    cases ok with
    | false => cases h₂
    | true =>
      cases h₂
      obtain ⟨hd, ticks, hticks, hlog⟩ := doConnectPeer_inv h₁
      refine ⟨.address hinfo (.inr hd), _, .dialled hc hd hinfo hticks, ?_⟩
      rw [hlog]
      show s.log ++ [_] ++ _ = _
      rw [List.append_assoc]
      rfl

theorem reachPeer_exec (h : PeerReached K e word key) (s : World) :
    ∃ t, (reachPeer K e word).exec s = some (some key, t) := by
  have hkey := h.key_eq
  unfold peerKey at hkey
  unfold reachPeer
  dsimp only
  rw [hkey]
  cases h with
  | listed hparts _ hc =>
    dsimp only
    rw [if_pos hparts]
    unfold peerByNodeId
    rw [hc]
    exact ⟨_, rfl⟩
  | @address addr hinfo hr =>
    have hparts : (splitParts '@' word.toList).2 ≠ [] := by
      intro hparts
      unfold peerInfo parsePeerInfo at hinfo
      dsimp only at hinfo
      rw [hparts] at hinfo
      cases hinfo
    unfold peerInfo at hinfo
    dsimp only
    rw [if_neg hparts, hinfo]
    obtain ⟨t, ht⟩ := connectPeerIfNecessary_exec hr addr s
    exact ⟨t, Crash.exec_bind_some ht⟩

theorem reachPeer_inv (h : (reachPeer K e word).exec s = some (some key, t)) :
    PeerReached K e word key ∧ ∃ acts, ReachActs K e word key acts ∧ t.log = s.log ++ acts := by
  unfold reachPeer at h
  dsimp only at h
  split at h
  · cases h
  · next pubkey hkey =>
    split at h
    · next hparts =>
      unfold peerByNodeId at h
      cases hc : e.connected pubkey with
      | true =>
        rw [hc] at h
        cases h
        exact ⟨.listed hparts hkey hc, _, .connected hc, rfl⟩
      | false =>
        rw [hc] at h
        cases h
    · split at h
      · cases h
      · next dialPubkey peerAddr hinfo =>
        obtain ⟨ok, s₁, h₁, h₂⟩ := Crash.exec_bind_inv h
        -- the key of the block is the outer one
        have heq : peerKey K word = some dialPubkey := peerKey_of_peerInfo hinfo
        unfold peerKey at heq
        rw [hkey] at heq
        cases heq
        cases ok with
        | false => cases h₂
        | true =>
          cases h₂
          exact connectPeerIfNecessary_inv hinfo h₁

theorem reachPeer_plain (word : String) : PlainCmd (reachPeer K e word) := by
  unfold reachPeer
  dsimp only
  split
  · exact (plain_argError _).map _
  · next pubkey _ =>
    split
    · refine .inl ((peerByNodeId_does pubkey fun _ => rfl).bind fun connected => ?_)
      split
      · exact does_pure _
      · exact (does_note rfl).bind fun _ => does_pure _
    · split
      · exact (plain_argError _).map _
      · next dialPubkey peerAddr _ =>
        refine .inr ((connectPeerIfNecessary_does dialPubkey peerAddr).bind fun ok => ?_)
        split
        · exact does_pure _
        · exact does_pure _

/-! ## The flags -/

/-- The value a word sets for the flag `name`. -/
def flagValue (name word : String) : Option Bool :=
  if word = name ∨ word = name ++ "=true" then some true
  else if word = name ++ "=false" then some false
  else none

/-- The value set by the last flag of the name. -/
def lastValue (name : String) (value : Bool) (flags : List String) : Bool :=
  (flags.filterMap (flagValue name)).getLastD value

def isFlag (word : String) : Bool :=
  (flagValue "--public" word).isSome || (flagValue "--with-anchors" word).isSome

theorem lastValue_cons (name : String) (value : Bool) (word : String) (flags : List String) :
    lastValue name value (word :: flags) =
      lastValue name ((flagValue name word).getD value) flags := by
  unfold lastValue
  rw [List.filterMap_cons]
  cases flagValue name word with
  | none => rfl
  | some v => rw [List.getLastD_cons, Option.getD_some]

theorem flagValue_none {name word : String} (h : word ≠ name) (ht : word ≠ name ++ "=true")
    (hf : word ≠ name ++ "=false") : flagValue name word = none := by
  unfold flagValue
  rw [if_neg (not_or.mpr ⟨h, ht⟩), if_neg hf]

/-- One round of the loop. -/
theorem readFlags_cons (word : String) (words : List String) (announceChannel withAnchors : Bool) :
    readFlags (word :: words) announceChannel withAnchors =
      if isFlag word then
        readFlags words ((flagValue "--public" word).getD announceChannel)
          ((flagValue "--with-anchors" word).getD withAnchors)
      else argError .booleanFlag >>= fun _ => readFlags words announceChannel withAnchors := by
  conv_lhs => unfold readFlags
  split
  · rfl
  · rfl
  · rfl
  · rfl
  · rfl
  · rfl
  · next h₁ h₂ h₃ h₄ h₅ h₆ =>
    have hpublic : flagValue "--public" word = none := flagValue_none h₁ h₂ h₃
    have hanchors : flagValue "--with-anchors" word = none := flagValue_none h₄ h₅ h₆
    have hflag : isFlag word = false := by
      unfold isFlag
      rw [hpublic, hanchors]
      rfl
    rw [hflag, if_neg Bool.false_ne_true]

/-- The errors of the loop, one for each word that is no flag. -/
structure FlagErrors (flags : List String) (acts : List Act) : Prop where
  error : ∀ a ∈ acts, a = .argError .booleanFlag
  invalid : acts ≠ [] → ∃ word ∈ flags, isFlag word = false

theorem flagErrors_nil (flags : List String) : FlagErrors flags [] :=
  ⟨fun _ ha => (nomatch ha), fun h => absurd rfl h⟩

theorem FlagErrors.mono {flags : List String} {acts : List Act} (h : FlagErrors flags acts)
    (word : String) : FlagErrors (word :: flags) acts := by
  refine ⟨h.error, fun hne => ?_⟩
  obtain ⟨flag, hm, hf⟩ := h.invalid hne
  exact ⟨flag, List.mem_cons_of_mem _ hm, hf⟩

theorem flagErrors_cons {flags : List String} {acts : List Act} {word : String}
    (hw : isFlag word = false) (h : ∀ a ∈ acts, a = .argError .booleanFlag) :
    FlagErrors (word :: flags) (.argError .booleanFlag :: acts) := by
  refine ⟨fun a ha => ?_, fun _ => ⟨word, List.mem_cons_self, hw⟩⟩
  rcases List.mem_cons.mp ha with rfl | ha
  · rfl
  · exact h a ha

/-- The loop sets each variable to the value of the last flag of its name. -/
theorem readFlags_exec (flags : List String) (announceChannel withAnchors : Bool) (s : World) :
    ∃ t errs, (readFlags flags announceChannel withAnchors).exec s =
        some ((lastValue "--public" announceChannel flags,
          lastValue "--with-anchors" withAnchors flags), t) ∧
      t.log = s.log ++ errs ∧ FlagErrors flags errs ∧ (errs = [] → ∀ f ∈ flags, isFlag f = true) := by
  induction flags generalizing announceChannel withAnchors s with
  | nil => exact ⟨s, [], rfl, (List.append_nil _).symm, flagErrors_nil [], fun _ _ hf => (nomatch hf)⟩
  | cons word flags ih =>
    rw [readFlags_cons]
    cases hw : isFlag word with
    | true =>
      rw [if_pos rfl, lastValue_cons, lastValue_cons]
      obtain ⟨t, errs, hexec, hlog, herrs, hall⟩ := ih _ _ s
      refine ⟨t, errs, hexec, hlog, herrs.mono word, fun he f hf => ?_⟩
      rcases List.mem_cons.mp hf with rfl | hf
      · exact hw
      · exact hall he f hf
    | false =>
      obtain ⟨hp, ha⟩ : flagValue "--public" word = none ∧ flagValue "--with-anchors" word = none := by
        unfold isFlag at hw
        simpa using hw
      rw [if_neg (by simp), lastValue_cons, lastValue_cons, hp, ha]
      obtain ⟨t, errs, hexec, hlog, herrs, -⟩ :=
        ih announceChannel withAnchors { s with log := s.log ++ [.argError .booleanFlag] }
      refine ⟨t, .argError .booleanFlag :: errs, Crash.exec_bind_some (note_exec _ s) |>.trans hexec,
        ?_, flagErrors_cons hw herrs.error, fun he => (nomatch he)⟩
      rw [hlog, List.append_assoc]
      rfl

theorem readFlags_steps {flags : List String} {announceChannel withAnchors : Bool}
    (h : t ∈ (readFlags flags announceChannel withAnchors).steps s) :
    ∃ errs, t.log = s.log ++ errs ∧ FlagErrors flags errs := by
  induction flags generalizing announceChannel withAnchors s with
  | nil => cases h
  | cons word flags ih =>
    rw [readFlags_cons] at h
    cases hw : isFlag word with
    | true =>
      rw [hw, if_pos rfl] at h
      obtain ⟨errs, hlog, herrs⟩ := ih h
      exact ⟨errs, hlog, herrs.mono word⟩
    | false =>
      rw [hw, if_neg (by simp)] at h
      rcases Crash.mem_steps_bind.mp h with h | ⟨_, s₁, h₁, h₂⟩
      · rw [List.mem_singleton.mp h]
        exact ⟨_, rfl, flagErrors_cons hw fun _ ha => (nomatch ha)⟩
      · cases h₁
        obtain ⟨errs, hlog, herrs⟩ := ih h₂
        refine ⟨.argError .booleanFlag :: errs, ?_, flagErrors_cons hw herrs.error⟩
        rw [hlog, List.append_assoc]
        rfl

theorem readFlags_spec (flags : List String) (s : World) :
    Crash.Triple (fun w => w = s) (readFlags flags false false)
      (fun values w => values = (lastValue "--public" false flags,
        lastValue "--with-anchors" false flags) ∧ ∃ errs, w.log = s.log ++ errs ∧ FlagErrors flags errs)
      (fun w => ∃ errs, w.log = s.log ++ errs ∧ FlagErrors flags errs) := by
  obtain ⟨t, errs, hexec, hlog, herrs, -⟩ := readFlags_exec flags false false s
  rintro w rfl
  refine ⟨fun u hu => readFlags_steps hu, fun values u hu => ?_⟩
  rw [hexec] at hu
  cases hu
  exact ⟨rfl, errs, hlog, herrs⟩

/-! ## The command -/

/-- The log of a state of the command whose peer is reached. -/
inductive OpenActs (K : Crates) (e : Env) (word amt : String) (flags : List String)
    (key : PublicKey) : List Act → Prop where
  | amount {acts : List Act} {kind : IntErrorKind} : ReachActs K e word key acts →
      parseU64 amt = .error kind →
      OpenActs K e word amt flags key (acts ++ [.argError .channelAmount])
  | flags {acts errs : List Act} {sat : UInt64} : ReachActs K e word key acts →
      parseU64 amt = .ok sat → FlagErrors flags errs →
      OpenActs K e word amt flags key (acts ++ errs)
  | called {acts errs post : List Act} {sat : UInt64} : ReachActs K e word key acts →
      parseU64 amt = .ok sat → FlagErrors flags errs → (∀ a ∈ post, ∃ text, a = .print text) →
      OpenActs K e word amt flags key (acts ++ errs ++
        .createChannel key sat (lastValue "--public" false flags)
          (lastValue "--with-anchors" false flags) :: post)

theorem openChannel_spec {acts : List Act} {flags : List String} {amt : String} {errs : List Act}
    {sat : UInt64} (hacts : ReachActs K e word key acts) (hamt : parseU64 amt = .ok sat)
    (herrs : FlagErrors flags errs) (log : List Act) :
    let Q (w : World) := ∃ opened, w.log = log ++ opened ∧ OpenActs K e word amt flags key opened
    Crash.Triple (fun w => w.log = log ++ (acts ++ errs))
      (openChannel e key sat (lastValue "--public" false flags)
        (lastValue "--with-anchors" false flags)) (fun _ => Q) Q := by
  intro Q
  let call := Act.createChannel key sat (lastValue "--public" false flags)
    (lastValue "--with-anchors" false flags)
  have hnone : ∀ a ∈ ([] : List Act), ∃ text, a = .print text := fun _ ha => (nomatch ha)
  have hcall : ∀ w : World, w.log = log ++ (acts ++ errs) ++ [call] → Q w := fun w hw =>
    ⟨_, by rw [hw, List.append_assoc], .called hacts hamt herrs hnone⟩
  have hprint : ∀ text, Crash.Triple (fun w => w.log = log ++ (acts ++ errs) ++ [call])
      (note (.print text)) (fun _ => Q) Q := by
    intro text
    have hq : ∀ w : World, w.log = log ++ (acts ++ errs) ++ [call] →
        Q { w with log := w.log ++ [.print text] } := fun w hw =>
      ⟨acts ++ errs ++ [call, .print text], by simp [hw],
        .called hacts hamt herrs fun a ha => ⟨text, List.mem_singleton.mp ha⟩⟩
    exact .modify_of (fun _ hw => hw) hq
  refine .bind (Q := fun _ w => w.log = log ++ (acts ++ errs) ++ [call]) (.modify ?_ ?_) fun _ => ?_
  · intro w hw
    exact hcall _ (by rw [hw])
  · intro w hw
    show w.log ++ _ = _
    rw [hw]
  · split
    · exact hprint _
    · exact hprint _

/-- What `openchannel` has done in any of its states. -/
def OpenState (K : Crates) (e : Env) (words : List String) (log : List Act) (w : World) : Prop :=
  Tame plain log w ∨ ∃ word amt flags key acts, words = word :: amt :: flags ∧
    PeerReached K e word key ∧ w.log = log ++ acts ∧ OpenActs K e word amt flags key acts

theorem openchannel_spec (words : List String) (w₀ : World) :
    Crash.Triple (fun w => w = w₀) (openchannel K e words) (fun _ => OpenState K e words w₀.log)
      (OpenState K e words w₀.log) := by
  match words with
  | [] => exact (tame_argError _ w₀).post (fun _ _ hw => .inl hw) fun _ hw => .inl hw
  | [_] => exact (tame_argError _ w₀).post (fun _ _ hw => .inl hw) fun _ hw => .inl hw
  | word :: amt :: flags =>
    refine .bind (Q := fun r w => (r = none → Tame plain w₀.log w) ∧ ∀ key, r = some key →
      PeerReached K e word key ∧ ∃ acts, ReachActs K e word key acts ∧ w.log = w₀.log ++ acts)
      ?_ fun r => ?_
    · rintro w rfl
      have htame := (@reachPeer_plain K e word).tame w w rfl
      refine ⟨fun t ht => .inl (htame.1 t ht), fun r t ht => ⟨fun _ => htame.2 r t ht, ?_⟩⟩
      rintro key rfl
      exact reachPeer_inv ht
    · cases r with
      | none => exact .pure fun w hw => .inl (hw.1 rfl)
      | some key =>
        refine .exact fun w₁ hw => ?_
        obtain ⟨hreached, acts, hacts, hlog⟩ := hw.2 key rfl
        have hopen : ∀ w, (∃ opened, w.log = w₀.log ++ opened ∧
            OpenActs K e word amt flags key opened) →
            OpenState K e (word :: amt :: flags) w₀.log w := by
          rintro w ⟨opened, hw, ho⟩
          exact .inr ⟨word, amt, flags, key, opened, rfl, hreached, hw, ho⟩
        dsimp only
        split
        · next kind hamt =>
          have hq : ∀ w, w = w₁ → OpenState K e (word :: amt :: flags) w₀.log
              { w with log := w.log ++ [.argError .channelAmount] } := by
            rintro w rfl
            exact hopen _ ⟨_, by rw [hlog, List.append_assoc], .amount hacts hamt⟩
          exact .modify_of (fun _ hw => hw) hq
        · next sat hamt =>
          refine .bind ((readFlags_spec flags w₁).post (fun _ _ hw => hw) ?_) fun values => ?_
          · rintro w ⟨errs, hwlog, herrs⟩
            exact hopen _ ⟨_, by rw [hwlog, hlog, List.append_assoc], .flags hacts hamt herrs⟩
          · refine .exact fun w₂ hw₂ => ?_
            obtain ⟨rfl, errs, herrlog, herrs⟩ := hw₂
            have hspec := openChannel_spec hacts hamt herrs w₀.log
            refine (hspec.pre ?_).post (fun _ => hopen) hopen
            rintro w rfl
            rw [herrlog, hlog, List.append_assoc]

theorem openState_of_leaves {words : List String}
    (ht : Crash.Leaves (openchannel K e words >>= fun _ => pure Next.readCommand) w t) :
    OpenState K e words w.log t := by
  have hspec : Crash.Triple (fun w' => w' = w)
      (openchannel K e words >>= fun _ => pure Next.readCommand)
      (fun _ => OpenState K e words w.log) (OpenState K e words w.log) :=
    .bind (openchannel_spec words w) fun _ => .pure fun _ h => h
  exact hspec.leaves_of rfl (.inl (.inl (only_refl rejects w))) ht

/-! ## One channel, as asked -/

theorem ReachActs.opensNone {acts : List Act} (h : ReachActs K e word key acts) :
    ∀ a ∈ acts, a.isCreateChannel = false := by
  cases h with
  | connected _ => simp [Act.isCreateChannel]
  | dialled _ _ _ hticks =>
    intro a ha
    rcases List.mem_append.mp ha with ha | ha
    · rcases List.mem_cons.mp ha with rfl | ha
      · rfl
      · rcases List.mem_cons.mp ha with rfl | ha
        · rfl
        · rw [hticks a ha]
          rfl
    · rw [List.mem_singleton.mp ha]
      rfl

theorem ReachActs.looked_up {acts : List Act} (h : ReachActs K e word key acts) :
    .peerByNodeId key true ∈ acts := by
  cases h with
  | connected _ => exact List.mem_cons_self
  | dialled _ _ _ _ => exact List.mem_append_right _ List.mem_cons_self

/-- Only the one key is looked up and dialled. -/
theorem ReachActs.only_key {acts : List Act} (h : ReachActs K e word key acts) {a : Act} (ha : a ∈ acts) :
    (∃ connected, a = .peerByNodeId key connected) ∨
      ∃ addr, a = .connectOutbound key addr ∧ peerInfo K word = .ok (key, addr) := by
  cases h with
  | connected _ => exact .inl ⟨true, List.mem_singleton.mp ha⟩
  | dialled _ _ hinfo hticks =>
    rcases List.mem_append.mp ha with ha | ha
    · rcases List.mem_cons.mp ha with rfl | ha
      · exact .inl ⟨false, rfl⟩
      · rcases List.mem_cons.mp ha with rfl | ha
        · exact .inr ⟨_, rfl, hinfo⟩
        · exact .inl ⟨false, hticks a ha⟩
    · exact .inl ⟨true, List.mem_singleton.mp ha⟩

/-- The call of `create_channel` is what the words ask for, with a peer that was connected. -/
structure AsAsked (K : Crates) (e : Env) (word amt : String) (flags : List String) (acts : List Act)
    (peer : PublicKey) (channelValueSat : UInt64) (announce anchors : Bool) : Prop where
  key : peerKey K word = some peer
  agree : ∀ info, peerInfo K word = .ok info → info.1 = peer
  reached : e.connected peer = true ∨
    e.dialSucceeds = true ∧ ∃ addr, peerInfo K word = .ok (peer, addr) ∧
      .connectOutbound peer addr ∈ acts
  /-- The peer was found in the peer map before the call. -/
  found : ∃ pre post, acts = pre ++ .createChannel peer channelValueSat announce anchors :: post ∧
    .peerByNodeId peer true ∈ pre
  looked : ∀ nodeId connected, .peerByNodeId nodeId connected ∈ acts → nodeId = peer
  dialled : ∀ nodeId addr, .connectOutbound nodeId addr ∈ acts →
    nodeId = peer ∧ peerInfo K word = .ok (nodeId, addr)
  amount : parseU64 amt = .ok channelValueSat
  announce : announce = lastValue "--public" false flags
  anchors : anchors = lastValue "--with-anchors" false flags

theorem ReachActs.opensNone_append {acts errs : List Act} (h : ReachActs K e word key acts)
    (herrs : ∀ a ∈ errs, ∃ err, a = .argError err) :
    ∀ a ∈ acts ++ errs, ¬ a.isCreateChannel = true := by
  intro a ha
  rcases List.mem_append.mp ha with ha | ha
  · simp [h.opensNone a ha]
  · obtain ⟨err, rfl⟩ := herrs a ha
    simp [Act.isCreateChannel]

theorem opensNone_prints {post : List Act} (h : ∀ a ∈ post, ∃ text, a = .print text) :
    ∀ a ∈ post, ¬ a.isCreateChannel = true := by
  intro a ha
  obtain ⟨text, rfl⟩ := h a ha
  simp [Act.isCreateChannel]

theorem OpenActs.count_le {amt : String} {flags : List String} {acts : List Act}
    (h : OpenActs K e word amt flags key acts) : acts.countP Act.isCreateChannel ≤ 1 := by
  cases h with
  | amount hacts _ =>
    rw [List.countP_eq_zero.mpr (hacts.opensNone_append fun a ha => ⟨_, List.mem_singleton.mp ha⟩)]
    exact Nat.zero_le 1
  | flags hacts _ herrs =>
    rw [List.countP_eq_zero.mpr (hacts.opensNone_append fun a ha => ⟨_, herrs.error a ha⟩)]
    exact Nat.zero_le 1
  | called hacts _ herrs hpost =>
    rw [List.countP_append, List.countP_cons_of_pos rfl,
      List.countP_eq_zero.mpr (hacts.opensNone_append fun a ha => ⟨_, herrs.error a ha⟩),
      List.countP_eq_zero.mpr (opensNone_prints hpost)]

/-- A call is the one of the last constructor. -/
theorem OpenActs.call_inv {amt : String} {flags : List String} {opened : List Act}
    {peer : PublicKey} {sat : UInt64} {announce anchors : Bool}
    (h : OpenActs K e word amt flags key opened)
    (hm : .createChannel peer sat announce anchors ∈ opened) :
    ∃ acts errs post, ReachActs K e word key acts ∧ parseU64 amt = .ok sat ∧
      FlagErrors flags errs ∧ (∀ a ∈ post, ∃ text, a = .print text) ∧ peer = key ∧
      announce = lastValue "--public" false flags ∧
      anchors = lastValue "--with-anchors" false flags ∧
      opened = acts ++ errs ++ .createChannel peer sat announce anchors :: post := by
  cases h with
  | amount hacts _ =>
    exact absurd rfl (hacts.opensNone_append (fun a ha => ⟨_, List.mem_singleton.mp ha⟩) _ hm)
  | flags hacts _ herrs =>
    exact absurd rfl (hacts.opensNone_append (fun a ha => ⟨_, herrs.error a ha⟩) _ hm)
  | @called acts errs post sat' hacts hamt herrs hpost =>
    rcases List.mem_append.mp hm with hm | hm
    · exact absurd rfl (hacts.opensNone_append (fun a ha => ⟨_, herrs.error a ha⟩) _ hm)
    · rcases List.mem_cons.mp hm with hm | hm
      · cases hm
        exact ⟨acts, errs, post, hacts, hamt, herrs, hpost, rfl, rfl, rfl, rfl⟩
      · exact absurd rfl (opensNone_prints hpost _ hm)

/-- Flag errors, the call and what is printed after it reach no peer. -/
theorem mem_reach {acts errs post : List Act} {call a : Act} {flags : List String}
    (herrs : FlagErrors flags errs) (hcall : call.isCreateChannel = true)
    (hpost : ∀ a ∈ post, ∃ text, a = .print text) (hm : a ∈ acts ++ errs ++ call :: post)
    (ha : (∃ nodeId connected, a = .peerByNodeId nodeId connected) ∨
      ∃ nodeId addr, a = .connectOutbound nodeId addr) : a ∈ acts := by
  rcases List.mem_append.mp hm with hm | hm
  · rcases List.mem_append.mp hm with hm | hm
    · exact hm
    · rw [herrs.error a hm] at ha
      simp at ha
  · rcases List.mem_cons.mp hm with rfl | hm
    · rcases ha with ⟨_, _, rfl⟩ | ⟨_, _, rfl⟩
      · cases hcall
      · cases hcall
    · obtain ⟨text, rfl⟩ := hpost a hm
      simp at ha

theorem OpenActs.asAsked {amt : String} {flags : List String} {opened : List Act}
    {peer : PublicKey} {sat : UInt64} {announce anchors : Bool}
    (hreached : PeerReached K e word key) (h : OpenActs K e word amt flags key opened)
    (hm : .createChannel peer sat announce anchors ∈ opened) :
    AsAsked K e word amt flags opened peer sat announce anchors := by
  obtain ⟨acts, errs, post, hacts, hamt, herrs, hpost, rfl, rfl, rfl, rfl⟩ := h.call_inv hm
  refine
    { key := hreached.key_eq
      agree := fun info hinfo => ?_
      reached := ?_
      found := ⟨_, _, rfl, List.mem_append_left _ hacts.looked_up⟩
      looked := fun nodeId connected hm => ?_
      dialled := fun nodeId addr hm => ?_
      amount := hamt
      announce := rfl
      anchors := rfl }
  · have hkey := hreached.key_eq
    rw [peerKey_of_peerInfo hinfo] at hkey
    exact Option.some.inj hkey
  · cases hacts with
    | connected hc => exact .inl hc
    | dialled _ hd hinfo _ => exact .inr ⟨hd, _, hinfo, by simp⟩
  · rcases hacts.only_key (mem_reach herrs rfl hpost hm (.inl ⟨_, _, rfl⟩)) with ⟨_, h⟩ | ⟨_, h, -⟩
    · cases h
      rfl
    · cases h
  · rcases hacts.only_key (mem_reach herrs rfl hpost hm (.inr ⟨_, _, rfl⟩)) with ⟨_, h⟩ | ⟨_, h, hi⟩
    · cases h
    · cases h
      exact ⟨rfl, hi⟩

/-- **`openchannel` opens what was asked**: in every state of every line, at most one channel, and
that with the peer, the amount and the flags of the line. -/
theorem opens_what_was_asked (K : Crates) (e : Env) (line : String) (w t : World)
    (ht : Crash.Leaves (handleLine K e line) w t) (acts : List Act) (hlog : t.log = w.log ++ acts) :
    acts.countP Act.isCreateChannel ≤ 1 ∧
    ∀ peer channelValueSat announce anchors,
      .createChannel peer channelValueSat announce anchors ∈ acts →
      ∃ word amt flags, splitWhitespace line = "openchannel" :: word :: amt :: flags ∧
        AsAsked K e word amt flags acts peer channelValueSat announce anchors := by
  have hno (htame : Tame opensNone w.log t) : acts.countP Act.isCreateChannel ≤ 1 ∧
      ∀ peer channelValueSat announce anchors,
        .createChannel peer channelValueSat announce anchors ∈ acts →
        ∃ word amt flags, splitWhitespace line = "openchannel" :: word :: amt :: flags ∧
          AsAsked K e word amt flags acts peer channelValueSat announce anchors := by
    refine ⟨?_, fun peer sat announce anchors hm => nomatch htame.effects hlog _ hm rfl⟩
    rw [List.countP_eq_zero.mpr]
    · exact Nat.zero_le 1
    · intro a ha hc
      cases a with
      | createChannel => exact nomatch htame.effects hlog _ ha rfl
      | _ => cases hc
  have hstart : Tame opensNone w.log w := .inl (only_refl rejects w)
  rcases handleLine_cases K e line with ⟨words, hline, hcmd⟩ | ⟨words, -, hcmd⟩ |
    ⟨words, -, hcmd⟩ | htame
  · rw [hcmd] at ht
    rcases openState_of_leaves ht with
      htame | ⟨word, amt, flags, key, acts', rfl, hreached, hlog', hopen⟩
    · exact hno (htame.mono opensNone_of_plain)
    · rw [hlog] at hlog'
      cases List.append_cancel_left hlog'
      exact ⟨hopen.count_le, fun peer sat announce anchors hm =>
        ⟨word, amt, flags, hline, hopen.asAsked hreached hm⟩⟩
  · rw [hcmd] at ht
    exact hno ((sendpayment_tame words w).leaves_of rfl hstart ht)
  · rw [hcmd] at ht
    exact hno (((keysend_tame words).map _ w).leaves_of rfl hstart ht)
  · exact hno (((htame.tame w).leaves_of rfl (.inl (only_refl rejects w)) ht).mono opensNone_of_plain)

/-- A peer that has to be dialled, and a flag given twice. -/
theorem opens_what_was_asked_dialled :
    let line := "openchannel 0279be667ef9dcbbac55a06295ce870b07029bfcdb2dce28d959f2815b16f81798" ++
      "@127.0.0.1:9735 50000 --public --with-anchors=true --public=false"
    ∃ t word amt flags, Crash.Leaves (handleLine sampleCrates sampleEnv line) noPayments t ∧
      splitWhitespace line = "openchannel" :: word :: amt :: flags ∧
      AsAsked sampleCrates sampleEnv word amt flags t.log samplePeer 50000 false true := by
  intro line
  have hrun : ((handleLine sampleCrates sampleEnv line).exec noPayments).map (·.2.log) =
      some [.peerByNodeId samplePeer false,
        .connectOutbound samplePeer (.v4 ⟨#[127, 0, 0, 1], rfl⟩ 9735),
        .peerByNodeId samplePeer false, .peerByNodeId samplePeer true,
        .createChannel samplePeer 50000 false true,
        .print "EVENT: initiated channel with peer"] := by decide +kernel
  obtain ⟨⟨next, t⟩, hexec, hlog⟩ := Option.map_eq_some_iff.mp hrun
  have ht : Crash.Leaves (handleLine sampleCrates sampleEnv line) noPayments t :=
    .inr (.inr ⟨next, hexec⟩)
  obtain ⟨word, amt, flags, hline, hasked⟩ :=
    (opens_what_was_asked sampleCrates sampleEnv line noPayments t ht t.log rfl).2 samplePeer
      50000 false true (by rw [hlog]; simp)
  exact ⟨t, word, amt, flags, ht, hline, hasked⟩

end Cli

end LdkSample
