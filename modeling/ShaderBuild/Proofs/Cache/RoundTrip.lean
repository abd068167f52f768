import ShaderBuild.Cache.Format
import ShaderBuild.Proofs.Answers
import ShaderBuild.Proofs.Json.RoundTrip

/-!
# Reading a cache file that was written

What is read back from the text of a cache is the cache (`ofText?_pretty`), as long as the moments
in it are ones that a machine can tell (`Timestamp.IsProper`): a moment with a whole second's worth
of nanoseconds would come back carried.
-/

namespace ShaderBuild

open Json

/-! ## Moments -/

/-- A moment that fits into 64 bits, its nanoseconds less than a second. -/
def Timestamp.IsProper (t : Timestamp) : Prop :=
  t.seconds < secondsLimit ∧ t.nanoseconds < nanosecondsPerSecond

instance (t : Timestamp) : Decidable t.IsProper := inferInstanceAs (Decidable (_ ∧ _))

namespace Timestamp

theorem encode_ok {t : Timestamp} {j : Json} (h : t.encode = .ok j) : ∃ s, t.seconds = .ofNat s ∧
    j = .object [("secs_since_epoch".toList, .ofNat s),
      ("nanos_since_epoch".toList, .ofNat t.nanoseconds)] := by
  unfold encode at h
  split at h
  · next s hs =>
    cases h
    exact ⟨s, hs, rfl⟩
  · cases h

theorem legible_encode {t : Timestamp} {j : Json} (h : t.encode = .ok j) : j.Legible := by
  obtain ⟨s, -, rfl⟩ := encode_ok h
  refine .object (fun m hm => ?_) (fun m hm => ?_)
  · simp only [List.mem_cons, List.not_mem_nil, or_false] at hm
    rcases hm with rfl | rfl
    · exact ⟨"secs_since_epoch".toList, rfl⟩
    · exact ⟨"nanos_since_epoch".toList, rfl⟩
  · simp only [List.mem_cons, List.not_mem_nil, or_false] at hm
    rcases hm with rfl | rfl <;> exact .number _

/-- A proper moment is read back. -/
theorem decode_encode {t : Timestamp} {j : Json} (ht : t.IsProper) (h : t.encode = .ok j) :
    decode j = some t := by
  obtain ⟨s, hs, rfl⟩ := encode_ok h
  obtain ⟨hseconds, hnanoseconds⟩ := ht
  rw [hs] at hseconds
  have hlimit : s < secondsLimit := Int.ofNat_lt.1 hseconds
  have hcounts : counts? (.object [("secs_since_epoch".toList, .ofNat s),
      ("nanos_since_epoch".toList, .ofNat t.nanoseconds)])
        = some (.ofNat s, .ofNat t.nanoseconds) := rfl
  have hsecs : (Json.ofNat s).nat? UInt64.size = some s :=
    ofDigits?_digits (Nat.lt_trans hlimit (by decide))
  have hnanos : (Json.ofNat t.nanoseconds).nat? UInt32.size = some t.nanoseconds :=
    ofDigits?_digits (Nat.lt_trans hnanoseconds (by decide))
  unfold decode
  simp only [hcounts, hsecs, hnanos, Option.bind_eq_bind, Option.bind_some]
  unfold ofCounts?
  rw [Nat.div_eq_of_lt hnanoseconds, Nat.mod_eq_of_lt hnanoseconds, Nat.add_zero]
  simp only
  rw [if_pos hlimit]
  cases t
  simp only at hs
  rw [hs]

end Timestamp

/-! ## Records -/

namespace CacheRecord

theorem encode_ok {r : CacheRecord} {j : Json} (h : r.encode = .ok j) :
    ∃ m, r.modified.encode = .ok m ∧ j = .object [
      ("path_hash".toList, .ofNat r.identity.toNat),
      ("full_path".toList, .ofString r.path.text),
      ("modified".toList, m),
      ("did_compile".toList, .boolean r.didCompile),
      ("outputs".toList, .array (r.outputs.map fun o => .ofString o.text))] := by
  unfold encode at h
  cases hm : r.modified.encode with
  | error fault =>
    rw [hm] at h
    cases h
  | ok m =>
    rw [hm] at h
    cases h
    exact ⟨m, rfl, rfl⟩

theorem legible_ofString (t : String) : (Json.ofString t).Legible := .string t.toList

theorem legible_encode {r : CacheRecord} {j : Json} (h : r.encode = .ok j) : j.Legible := by
  obtain ⟨m, hm, rfl⟩ := encode_ok h
  refine .object (fun x hx => ?_) (fun x hx => ?_)
  · simp only [List.mem_cons, List.not_mem_nil, or_false] at hx
    rcases hx with rfl | rfl | rfl | rfl | rfl
    · exact ⟨"path_hash".toList, rfl⟩
    · exact ⟨"full_path".toList, rfl⟩
    · exact ⟨"modified".toList, rfl⟩
    · exact ⟨"did_compile".toList, rfl⟩
    · exact ⟨"outputs".toList, rfl⟩
  · simp only [List.mem_cons, List.not_mem_nil, or_false] at hx
    rcases hx with rfl | rfl | rfl | rfl | rfl
    · exact .number _
    · exact legible_ofString _
    · exact Timestamp.legible_encode hm
    · exact .boolean _
    · refine .array fun x hx => ?_
      obtain ⟨o, -, rfl⟩ := List.mem_map.1 hx
      exact legible_ofString _

theorem mapM_text? (ps : List Path) :
    (ps.map fun p => Json.ofString p.text).mapM Json.text? = some (ps.map Path.text) := by
  induction ps with
  | nil => rfl
  | cons p ps ih =>
    rw [List.map_cons, List.mapM_cons, text?_ofString, ih]
    rfl

/-- A record with a proper moment is read back. -/
theorem decode_encode {r : CacheRecord} {j : Json} (hr : r.modified.IsProper)
    (h : r.encode = .ok j) : decode j = some r := by
  obtain ⟨m, hm, rfl⟩ := encode_ok h
  have hidentity : (Json.ofNat r.identity.toNat).nat? UInt32.size = some r.identity.toNat :=
    ofDigits?_digits r.identity.toNat_lt
  have hfields : decode (.object [
      ("path_hash".toList, .ofNat r.identity.toNat),
      ("full_path".toList, .ofString r.path.text),
      ("modified".toList, m),
      ("did_compile".toList, .boolean r.didCompile),
      ("outputs".toList, .array (r.outputs.map fun o => .ofString o.text))])
    = ofFields? (.ofNat r.identity.toNat) (.ofString r.path.text) m (.boolean r.didCompile)
        (.array (r.outputs.map fun o => .ofString o.text)) := rfl
  rw [hfields, ofFields?]
  simp only [hidentity, text?_ofString, Timestamp.decode_encode hr hm, boolean?, items?,
    mapM_text?, Option.bind_eq_bind, Option.bind_some, Option.pure_def, List.map_map]
  have houtputs : r.outputs.map (Path.mk ∘ Path.text) = r.outputs := List.map_id _
  rw [houtputs, UInt32.ofNat_toNat]

end CacheRecord

/-! ## Caches -/

namespace BuildCache

variable {c : BuildCache} {j : Json}

/-- The member that a record is written as. -/
def encodeEntry (entry : UInt32 × CacheRecord) : Except IoFault (List Char × Json) := do
  return (digits entry.1.toNat, ← entry.2.encode)

theorem encodeEntry_ok {entry : UInt32 × CacheRecord} {m : List Char × Json}
    (h : encodeEntry entry = .ok m) :
    m.1 = digits entry.1.toNat ∧ entry.2.encode = .ok m.2 := by
  unfold encodeEntry at h
  cases hr : entry.2.encode with
  | error fault =>
    rw [hr] at h
    cases h
  | ok j =>
    rw [hr] at h
    cases h
    exact ⟨rfl, rfl⟩

theorem encode_ok (h : c.encode = .ok j) :
    ∃ members, c.records.mapM encodeEntry = .ok members ∧ j = .object members := by
  have heq : c.encode = (c.records.mapM encodeEntry) >>= fun members => .ok (.object members) := rfl
  rw [heq] at h
  cases hm : c.records.mapM encodeEntry with
  | error fault =>
    rw [hm] at h
    cases h
  | ok members =>
    rw [hm] at h
    cases h
    exact ⟨members, rfl, rfl⟩

/-- Digits spell themselves. -/
theorem spell_digits (n : Nat) : spell (digits n) = digits n := by
  have hplain : ∀ c, c.isDigit = true → escape c = [c] := by
    intro c hc
    rcases escape_cases c with ⟨a, b, -, -, hctl⟩ | ⟨e, -, he, -⟩ | ⟨h, -⟩
    · simp only [Char.isDigit, Bool.and_eq_true, decide_eq_true_eq, ge_iff_le] at hc
      have := UInt32.le_iff_toNat_le.1 hc.1
      simp only [Char.toNat] at hctl
      have h48 : ('0' : Char).val.toNat = 48 := rfl
      omega
    · unfold escaped? at he
      split at he <;> cases he <;> revert hc <;> decide
    · exact h
  have hall : ∀ c ∈ digits n, c.isDigit = true := fun c hc => isDigit_of_mem_digits hc
  unfold spell
  generalize digits n = ds at hall
  induction ds with
  | nil => rfl
  | cons c ds ih =>
    rw [List.flatMap_cons, hplain c (hall c List.mem_cons_self),
      ih fun c hc => hall c (List.mem_cons_of_mem _ hc)]
    rfl

theorem legible_members {records : List (UInt32 × CacheRecord)}
    {members : List (List Char × Json)} (h : records.mapM encodeEntry = .ok members) :
    ∀ m ∈ members, (∃ t, m.1 = spell t) ∧ m.2.Legible := by
  induction records generalizing members with
  | nil =>
    cases h
    intro m hm
    cases hm
  | cons entry records ih =>
    obtain ⟨m, rest, hentry, hrest, rfl⟩ := mapM_cons_ok h
    obtain ⟨hkey, hvalue⟩ := encodeEntry_ok hentry
    intro x hx
    rcases List.mem_cons.1 hx with rfl | hx
    · exact ⟨⟨_, hkey.trans (spell_digits _).symm⟩, CacheRecord.legible_encode hvalue⟩
    · exact ih hrest x hx

/-- A record under a key that is greater than all others comes last. -/
theorem place_of_lt {key : UInt32} {r : CacheRecord} {l : List (UInt32 × CacheRecord)}
    (h : ∀ k ∈ l.map (·.1), k < key) : place key r l = l ++ [(key, r)] := by
  induction l with
  | nil => rfl
  | cons p l ih =>
    obtain ⟨k, q⟩ := p
    have hk : k < key := h k (by simp)
    rw [place, if_neg (UInt32.lt_asymm hk), if_neg (UInt32.ne_of_lt hk).symm,
      ih fun k' hk' => h k' (List.mem_cons_of_mem _ hk')]
    rfl

/-- Records are read back in their order. -/
theorem foldlM_decode (done : List (UInt32 × CacheRecord)) {records : List (UInt32 × CacheRecord)}
    {members : List (List Char × Json)} (h : records.mapM encodeEntry = .ok members)
    (hproper : ∀ entry ∈ records, entry.2.modified.IsProper)
    (hdone : (done.map (·.1)).Pairwise (· < ·))
    (hordered : ((done ++ records).map (·.1)).Pairwise (· < ·)) :
    members.foldlM (fun (c : BuildCache) (m : List Char × Json) => do
      let key ← Json.ofDigits? UInt32.size m.1
      return c.insert (UInt32.ofNat key) (← CacheRecord.decode m.2)) ⟨done, hdone⟩
      = some ⟨done ++ records, hordered⟩ := by
  induction records generalizing done members with
  | nil =>
    cases h
    simp
  | cons entry records ih =>
    obtain ⟨m, rest, hentry, hrest, rfl⟩ := mapM_cons_ok h
    obtain ⟨hkey, hvalue⟩ := encodeEntry_ok hentry
    have hread : ofDigits? UInt32.size m.1 = some entry.1.toNat := by
      rw [hkey]
      exact ofDigits?_digits entry.1.toNat_lt
    have hrecord := CacheRecord.decode_encode (hproper entry List.mem_cons_self) hvalue
    have hlast : ∀ k ∈ done.map (·.1), k < entry.1 := by
      intro k hk
      rw [List.map_append, List.pairwise_append] at hordered
      exact hordered.2.2 k hk entry.1 (by simp)
    have hinsert : (⟨done, hdone⟩ : BuildCache).insert entry.1 entry.2
        = ⟨done ++ [entry], by
            rw [List.map_append, List.pairwise_append]
            exact ⟨hdone, by simp, fun k hk k' hk' => by
              obtain rfl : k' = entry.1 := by simpa using hk'
              exact hlast k hk⟩⟩ := by
      unfold insert
      simp only [place_of_lt hlast]
    rw [List.foldlM_cons]
    simp only [hread, hrecord, Option.bind_eq_bind, Option.bind_some, Option.pure_def,
      UInt32.ofNat_toNat, hinsert]
    have := ih (done ++ [entry]) hrest (fun e he => hproper e (List.mem_cons_of_mem _ he)) (by
        rw [List.map_append, List.pairwise_append]
        exact ⟨hdone, by simp, fun k hk k' hk' => by
          obtain rfl : k' = entry.1 := by simpa using hk'
          exact hlast k hk⟩)
      (by rw [List.append_assoc]; exact hordered)
    simp only [List.append_assoc, List.singleton_append] at this
    exact this

/-- A cache is read back from its text. -/
theorem ofText?_pretty (hproper : ∀ entry ∈ c.records, entry.2.modified.IsProper)
    (h : c.encode = .ok j) : ofText? j.pretty = some c := by
  obtain ⟨members, hmembers, rfl⟩ := encode_ok h
  have hlegible := legible_members hmembers
  unfold ofText?
  rw [parse_pretty (.object (fun m hm => (hlegible m hm).1) fun m hm => (hlegible m hm).2)]
  exact foldlM_decode [] hmembers hproper .nil c.ordered

end BuildCache

end ShaderBuild
