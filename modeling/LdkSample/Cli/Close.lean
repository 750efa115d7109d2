import LdkSample.Cli.Acts
import LdkSample.Cli.Hex

/-!
# What hexadecimal texts lose

`to_vec` decodes the pairs of digits of a text and drops a digit that is left over, so encoding
undoes it, and two texts are told apart, exactly where no such digit matters. `closechannel` and
`forceclosechannel` look at the decoded bytes only, and close a channel whose id or peer was typed
with a digit too many (`hex_undone_iff`).
-/

namespace LdkSample

namespace Cli

open Node (PublicKey)

variable {K : Crates} {e : Env} {command : CloseCommand} {words : List String} {line s t : String}
  {w : World}

/-! ## What is to hold -/

/-- Encoding undoes the decoding, of all digits. -/
structure Undone (s : String) : Prop where
  encode : ∀ v, hexToVec s = some v → hexStr v = s.toLower
  length : ∀ v, hexToVec s = some v → s.length = 2 * v.length

/-- Two texts that differ other than in letter case decode differently. -/
def ToldApart (s t : String) : Prop :=
  ∀ u v, hexToVec s = some u → hexToVec t = some v → s.toLower ≠ t.toLower → u ≠ v

/-- The channel id and the peer key are those of the words, in full. -/
structure TypedInFull (K : Crates) (channelIdStr peerPubkeyStr : String) (channelId : Bytes32)
    (peerPubkey : PublicKey) : Prop where
  channelId : hexStr channelId.toList = channelIdStr.toLower
  peerPubkey : ∃ data, hexStr data = peerPubkeyStr.toLower ∧
    K.publicKeyFromSlice data = some peerPubkey

/-- The command has no effect but on what was typed in full. -/
def ActsOnTyped (K : Crates) (e : Env) (command : CloseCommand) (line : String) (w : World) : Prop :=
  ∀ t acts, Crash.Leaves (handleLine K e line) w t → t.log = w.log ++ acts →
    ∀ a ∈ acts, a.isEffect = true → ∃ channelIdStr peerPubkeyStr more channelId peerPubkey,
      splitWhitespace line = command.name :: channelIdStr :: peerPubkeyStr :: more ∧
      a = .closeChannel command channelId peerPubkey ∧
      TypedInFull K channelIdStr peerPubkeyStr channelId peerPubkey

/-- A digit is left over. -/
def OneOver (s : String) : Prop := Digits s.toList ∧ s.length % 2 = 1

/-- The texts differ in what is left over, and not in their pairs of digits. -/
structure Merged (s t : String) : Prop where
  digits : Digits s.toList ∧ Digits t.toList
  pairs : (paired s.toList).map Char.toLower = (paired t.toList).map Char.toLower
  leftOver : (unpaired s.toList).map Char.toLower ≠ (unpaired t.toList).map Char.toLower

/-- The pairs of digits of the words are a channel id and a key, and a digit is left over. -/
structure CutShort (K : Crates) (channelIdStr peerPubkeyStr : String) : Prop where
  channelId : Digits channelIdStr.toList ∧ (paired channelIdStr.toList).length = 64
  peerPubkey : Digits peerPubkeyStr.toList ∧ ∃ data peerPubkey,
    HexOf (paired peerPubkeyStr.toList) data ∧ K.publicKeyFromSlice data = some peerPubkey
  leftOver : OneOver channelIdStr ∨ OneOver peerPubkeyStr

/-! ## Texts -/

theorem length_of_hexStr {v : Bytes} (h : hexStr v = s.toLower) : s.length = 2 * v.length := by
  rw [← String.length_toList]
  exact (hexStr_eq_toLower.mp h).length_eq

theorem undone_of_not_oneOver (h : ¬ OneOver s) : Undone s := by
  have hencode : ∀ v, hexToVec s = some v → hexStr v = s.toLower := by
    intro v hv
    obtain ⟨hd, hof⟩ := hexToVec_eq_some.mp hv
    have heven : s.toList.length % 2 = 0 :=
      (Nat.mod_two_eq_zero_or_one _).resolve_right fun hodd => h ⟨hd, String.length_toList ▸ hodd⟩
    have hpaired : paired s.toList = s.toList := paired_of_even (k := s.toList.length / 2) (by omega)
    rw [hpaired] at hof
    exact hexStr_eq_toLower.mpr hof
  exact ⟨hencode, fun v hv => length_of_hexStr (hencode v hv)⟩

theorem undone_iff : Undone s ↔ ¬ OneOver s := by
  refine ⟨fun h ⟨hd, hodd⟩ => ?_, undone_of_not_oneOver⟩
  obtain ⟨v, hv⟩ := hd.paired
  have hlen := h.length v (hexToVec_eq_some.mpr ⟨hd, hv⟩)
  omega

theorem toLower_eq_iff : s.toLower = t.toLower ↔
    s.toList.map Char.toLower = t.toList.map Char.toLower := by
  rw [← String.toList_inj, toList_toLower, toList_toLower]

/-- Two texts agree up to case in their pairs of digits and in what is left over, or differ. -/
theorem toLower_eq_iff_paired : s.toLower = t.toLower ↔
    (paired s.toList).map Char.toLower = (paired t.toList).map Char.toLower ∧
    (unpaired s.toList).map Char.toLower = (unpaired t.toList).map Char.toLower := by
  rw [toLower_eq_iff]
  constructor
  · intro h
    have hlen : s.toList.length = t.toList.length := by
      have := congrArg List.length h
      rwa [List.length_map, List.length_map] at this
    unfold paired unpaired
    rw [List.map_take, List.map_take, List.map_drop, List.map_drop, h, hlen]
    exact ⟨rfl, rfl⟩
  · rintro ⟨hp, hu⟩
    rw [← paired_append_unpaired s.toList, ← paired_append_unpaired t.toList, List.map_append,
      List.map_append, hp, hu]

theorem toldApart_iff : ToldApart s t ↔ ¬ Merged s t := by
  constructor
  · rintro h ⟨⟨hs, ht⟩, hpairs, hover⟩
    obtain ⟨v, hv⟩ := hs.paired
    have hv' : HexOf (paired t.toList) v := by
      rw [hexOf_iff] at hv ⊢
      exact hpairs.symm.trans hv
    refine h v v (hexToVec_eq_some.mpr ⟨hs, hv⟩) (hexToVec_eq_some.mpr ⟨ht, hv'⟩) (fun he => ?_) rfl
    exact hover (toLower_eq_iff_paired.mp he).2
  · rintro h u v hu hv hne rfl
    obtain ⟨hs, hofs⟩ := hexToVec_eq_some.mp hu
    obtain ⟨ht, hoft⟩ := hexToVec_eq_some.mp hv
    have hpairs := (hexOf_iff.mp hofs).trans (hexOf_iff.mp hoft).symm
    exact h ⟨⟨hs, ht⟩, hpairs, fun hover => hne (toLower_eq_iff_paired.mpr ⟨hpairs, hover⟩)⟩

/-! ## The two commands -/

/-- What a close command says after its call. -/
def closeReport (e : Env) (command : CloseCommand) : Crash World Unit :=
  if e.closeChannelOk then note (.print ("EVENT: initiating channel " ++ command.verb))
  else note (.print ("ERROR: failed to " ++ command.verb ++ " channel"))

section Commands

variable {channelIdStr peerPubkeyStr : String} {more : List String} {channelId : Bytes32}
  {peerPubkey : PublicKey}

theorem close_of_decoded (h : Decoded K channelIdStr peerPubkeyStr channelId peerPubkey) :
    close K e command (channelIdStr :: peerPubkeyStr :: more) =
      note (.closeChannel command channelId peerPubkey) >>= fun _ => closeReport e command := by
  simp only [close, h.channelId, h.peerPubkey]
  rw [dif_pos (Vector.length_toList)]
  rfl

theorem handleLine_close (hline : splitWhitespace line = command.name :: words) :
    handleLine K e line = close K e command words >>= fun _ => pure .readCommand := by
  unfold handleLine
  rw [hline]
  cases command <;> rfl

/-- The acts of a program followed by something that does nothing. -/
theorem Does.acts {α β : Type} {p : Act → Bool} {m : Crash World α} (h : Does p m) {b : β}
    {t : World} (ht : Crash.Leaves (m >>= fun _ => pure b) w t) {acts : List Act}
    (hlog : t.log = w.log ++ acts) : ∀ a ∈ acts, p a = true :=
  ((h.bind fun _ => does_pure b).only.leaves (only_refl p w) ht).acts hlog

/-- Words that decode were typed in full where no digit is left over. -/
theorem Decoded.typedInFull (h : Decoded K channelIdStr peerPubkeyStr channelId peerPubkey)
    (hid : ¬ OneOver channelIdStr) (hkey : ¬ OneOver peerPubkeyStr) :
    TypedInFull K channelIdStr peerPubkeyStr channelId peerPubkey := by
  obtain ⟨data, hdata, hkeyOf⟩ := Option.bind_eq_some_iff.mp h.peerPubkey
  exact ⟨(undone_of_not_oneOver hid).encode _ h.channelId, data,
    (undone_of_not_oneOver hkey).encode data hdata, hkeyOf⟩

theorem Decoded.cutShort (h : Decoded K channelIdStr peerPubkeyStr channelId peerPubkey)
    (hover : OneOver channelIdStr ∨ OneOver peerPubkeyStr) : CutShort K channelIdStr peerPubkeyStr := by
  obtain ⟨data, hdata, hkeyOf⟩ := Option.bind_eq_some_iff.mp h.peerPubkey
  obtain ⟨hid, hidOf⟩ := hexToVec_eq_some.mp h.channelId
  obtain ⟨hkey, hkeyHex⟩ := hexToVec_eq_some.mp hdata
  refine ⟨⟨hid, ?_⟩, ⟨hkey, data, peerPubkey, hkeyHex, hkeyOf⟩, hover⟩
  rw [hidOf.length_eq, Vector.length_toList]

/-- Words that are cut short decode. -/
theorem CutShort.decoded (h : CutShort K channelIdStr peerPubkeyStr) :
    ∃ channelId peerPubkey, Decoded K channelIdStr peerPubkeyStr channelId peerPubkey := by
  obtain ⟨⟨hid, hlen⟩, ⟨hkey, data, peerPubkey, hdata, hkeyOf⟩, -⟩ := h
  obtain ⟨bytes, hbytes⟩ := hid.paired
  have hsize : bytes.length = 32 := by
    rw [hbytes.length_eq] at hlen
    omega
  refine ⟨⟨bytes.toArray, hsize⟩, peerPubkey, hexToVec_eq_some.mpr ⟨hid, hbytes⟩, ?_⟩
  rw [hexToVec_eq_some.mpr ⟨hkey, hdata⟩, Option.bind_some, hkeyOf]

theorem TypedInFull.not_oneOver (h : TypedInFull K channelIdStr peerPubkeyStr channelId peerPubkey) :
    ¬ OneOver channelIdStr ∧ ¬ OneOver peerPubkeyStr := by
  obtain ⟨hid, data, hkey, -⟩ := h
  refine ⟨fun ⟨_, hodd⟩ => ?_, fun ⟨_, hodd⟩ => ?_⟩
  · have := length_of_hexStr hid
    omega
  · have := length_of_hexStr hkey
    omega

theorem actsOnTyped_of_not_cutShort (hline : splitWhitespace line = command.name :: words)
    (h : ¬ ∃ channelIdStr peerPubkeyStr more, words = channelIdStr :: peerPubkeyStr :: more ∧
      CutShort K channelIdStr peerPubkeyStr) : ActsOnTyped K e command line w := by
  intro t acts ht hlog a ha heff
  rw [handleLine_close hline] at ht
  rcases close_cases K e command words with
    hdoes | ⟨channelIdStr, peerPubkeyStr, more, channelId, peerPubkey, rfl, hdecoded, hdoes⟩
  · have hr := hdoes.acts ht hlog a ha
    rw [rejects, heff] at hr
    cases hr
  · have hcall := (Bool.and_eq_true_iff.mp (hdoes.acts ht hlog a ha)).2
    rw [nothingBut, heff] at hcall
    have hfull : ¬ (OneOver channelIdStr ∨ OneOver peerPubkeyStr) := fun hover =>
      h ⟨channelIdStr, peerPubkeyStr, more, rfl, hdecoded.cutShort hover⟩
    rw [not_or] at hfull
    exact ⟨channelIdStr, peerPubkeyStr, more, channelId, peerPubkey, hline, by simpa using hcall,
      hdecoded.typedInFull hfull.1 hfull.2⟩

/-- The call is made for words that are cut short. -/
theorem not_actsOnTyped_of_cutShort
    (hline : splitWhitespace line = command.name :: channelIdStr :: peerPubkeyStr :: more)
    (h : CutShort K channelIdStr peerPubkeyStr) : ¬ ActsOnTyped K e command line w := by
  intro hacts
  obtain ⟨channelId, peerPubkey, hdecoded⟩ := h.decoded
  let call := Act.closeChannel command channelId peerPubkey
  let t : World := { w with log := w.log ++ [call] }
  have ht : Crash.Leaves (handleLine K e line) w t := by
    refine .inr (.inl ?_)
    rw [handleLine_close hline, close_of_decoded hdecoded]
    exact Crash.mem_steps_left (Crash.mem_steps_left List.mem_cons_self)
  obtain ⟨channelIdStr', peerPubkeyStr', more', channelId', peerPubkey', hline', -, hfull⟩ :=
    hacts t [call] ht rfl call List.mem_cons_self rfl
  rw [hline] at hline'
  cases hline'
  exact h.leftOver.elim hfull.not_oneOver.1 hfull.not_oneOver.2

end Commands

/-- **Decoding is undone by encoding** exactly where no digit is left over; two texts are told apart
exactly where they do not differ in such a digit only, and the two commands act on what was typed in
full exactly where none is left over of words that decode. -/
theorem hex_undone_iff (s t : String) (K : Crates) (e : Env) (command : CloseCommand)
    (line : String) (words : List String) (w : World) :
    (Undone s ↔ ¬ OneOver s) ∧ (ToldApart s t ↔ ¬ Merged s t) ∧
    (splitWhitespace line = command.name :: words →
      (ActsOnTyped K e command line w ↔
        ¬ ∃ channelIdStr peerPubkeyStr more, words = channelIdStr :: peerPubkeyStr :: more ∧
          CutShort K channelIdStr peerPubkeyStr)) := by
  refine ⟨undone_iff, toldApart_iff, fun hline => ?_⟩
  constructor
  · rintro h ⟨channelIdStr, peerPubkeyStr, more, rfl, hcut⟩
    exact not_actsOnTyped_of_cutShort hline hcut h
  · exact actsOnTyped_of_not_cutShort hline

section Examples

/-- A channel id of 32 bytes, with a digit too many. -/
def longId : String := String.ofList (List.replicate 65 '1')

def sampleKey : String := String.ofList ('0' :: '2' :: List.replicate 64 '3')

def longIdLine : String :=
  String.ofList ("closechannel".toList ++ ' ' :: longId.toList ++ ' ' :: sampleKey.toList)

theorem words_longIdLine :
    splitWhitespace longIdLine = CloseCommand.name .closechannel :: [longId, sampleKey] := by
  unfold splitWhitespace longIdLine longId sampleKey
  rw [String.toList_ofList, String.toList_ofList, String.toList_ofList]
  decide +kernel

theorem longId_oneOver : OneOver longId := by
  unfold OneOver longId
  rw [String.length_ofList, String.toList_ofList]
  refine ⟨fun c hc => ⟨1, ?_⟩, rfl⟩
  rw [List.eq_of_mem_replicate hc]
  exact (hexDigit_eq_some (d := 1)).mp (by decide)

theorem longId_cutShort : CutShort sampleCrates longId sampleKey := by
  have hid : hexToVec longId = some (List.replicate 32 0x11) := by
    unfold hexToVec longId
    rw [String.toList_ofList]
    decide +kernel
  have hkey : hexToVec sampleKey = some (2 :: List.replicate 32 0x33) := by
    unfold hexToVec sampleKey
    rw [String.toList_ofList]
    decide +kernel
  have hdecoded : Decoded sampleCrates longId sampleKey (Vector.replicate 32 0x11)
      ⟨⟨(2 :: List.replicate 32 0x33).toArray, rfl⟩⟩ := by
    refine ⟨hid, ?_⟩
    rw [hkey, Option.bind_some]
    decide
  exact hdecoded.cutShort (.inl longId_oneOver)

end Examples

theorem hex_undone_iff_longId : ¬ Undone longId ∧ ToldApart "0a" "0aFF" ∧
    ¬ ActsOnTyped sampleCrates sampleEnv .closechannel longIdLine noPayments := by
  obtain ⟨hundone, -, hacts⟩ := hex_undone_iff longId "0aFF" sampleCrates sampleEnv .closechannel
    longIdLine [longId, sampleKey] noPayments
  obtain ⟨-, hapart, -⟩ := hex_undone_iff "0a" "0aFF" sampleCrates sampleEnv .closechannel
    longIdLine [longId, sampleKey] noPayments
  refine ⟨fun h => hundone.mp h longId_oneOver, hapart.mpr fun h => absurd h.pairs (by decide),
    fun h => ?_⟩
  exact (hacts words_longIdLine).mp h ⟨longId, sampleKey, [], rfl, longId_cutShort⟩

/-- The last of three digits is dropped. -/
theorem threeDigits_not_undone :
    hexToVec "abc" = some [0xab] ∧ hexToVec "ab" = some [0xab] ∧ hexStr [0xab] = "ab" ∧
      ¬ ∀ s v, hexToVec s = some v → hexStr v = s.toLower := by
  refine ⟨by decide, by decide, by decide, fun h => ?_⟩
  exact absurd (length_of_hexStr (h "abc" [0xab] (by decide))) (by decide)

end Cli

end LdkSample
