import PokrovCore.Daemon.JournalRuns

/-!
# Daemon/Acknowledge — an acknowledgement removes what its snapshot showed

The digest a client acknowledges is taken of the canonical text of a content.  That text determines
the content (`canonicalText_injective`: every object reads back by its keys, every list item by
item), so with a hash that does not collide on the texts of a run the digest does too, and what
`acknowledge` removes is exactly what the client was shown and nobody has touched since.
-/

namespace PokrovCore.Daemon

namespace Journal

theorem entryJson_injective : Function.Injective entryJson := by
  intro a b h
  have hkeys : (Record.keys ++ ["live"]).Nodup := by decide
  have hread : ∀ e : Record × Bool, Json.object? (Record.keys ++ ["live"]) (entryJson e) =
      some (e.1.values LeaseIdentity.canonicalObject ++ [.bool e.2]) :=
    fun e => Json.object?_sorted hkeys rfl
  have hvalues := Option.some.inj ((hread a).symm.trans ((congrArg _ h).trans (hread b)))
  obtain ⟨hrecord, hlive⟩ := List.append_inj hvalues rfl
  have hr : a.1 = b.1 := by
    refine Option.some.inj ?_
    rw [← Record.ofValues_values LeaseIdentity.parse_canonicalObject a.1,
      ← Record.ofValues_values LeaseIdentity.parse_canonicalObject b.1, hrecord]
  exact Prod.ext hr (by simpa using hlive)

theorem wellFormed_entryJson (e : Record × Bool) : Json.wellFormed (entryJson e) = true := by
  refine Json.wellFormed_sorted fun j hj => ?_
  rcases List.mem_append.mp hj with hj | hj
  · exact e.1.wellFormed_values (fun l => Json.wellFormed_sorted l.wellFormed_values) j hj
  · obtain rfl := List.mem_singleton.mp hj
    rfl

/-- **The canonical text determines the content.** -/
theorem canonicalText_injective : Function.Injective canonicalText := by
  intro c c' h
  have hwf : ∀ c : List (Record × Bool), Json.wellFormed (.arr (c.map entryJson)) = true :=
    fun c => Json.wellFormed_arr fun j hj => by
      obtain ⟨e, _, rfl⟩ := List.mem_map.mp hj
      exact wellFormed_entryJson e
  have harr := Json.render_injOn (hwf c) (hwf c') h
  exact List.map_injective_iff.mpr entryJson_injective (Json.arr.inj harr)

theorem mem_content {j : Journal} {r : Record} (h : r ∈ j.records) : (r, j.isLive r) ∈ j.content :=
  List.mem_map.mpr ⟨r, (List.perm_insertionSort _ _).mem_iff.mpr h, rfl⟩

/-- The journal once it is loaded, if it can be. -/
def opened (read : Bool) (j : Journal) : Journal := (j.loadLocked read).getD j

variable {sha256 : List Char → Digest} {j j' : Journal} {snapshotSHA256 : String}
  {read write again : Bool} {answer : Except JournalError Bool}

theorem opened_of_loadLocked {j₁ : Journal} (h : j.loadLocked read = some j₁) :
    j.opened read = j₁ := by
  rw [opened, h]
  rfl

/-- **A true answer**: the digest is the present one, and what is not live is handed over. -/
theorem acknowledge_true
    (h : j.acknowledge sha256 snapshotSHA256 read write again = (j', .ok true)) :
    ∃ disk, j.loadLocked read = some (j.opened read) ∧
      (sha256 (canonicalText (j.opened read).content)).text = snapshotSHA256 ∧
      Written (j.opened read).handOver.records disk ∧
      j' = { (j.opened read).handOver with disk := disk } := by
  rcases acknowledge_cases sha256 snapshotSHA256 read write again j with
    ⟨e, heq⟩ | ⟨j₁, hload, ⟨e, heq⟩ | ⟨disk, _, ⟨a, ha, heq⟩ | ⟨disk', hdigest, hwr, heq⟩⟩⟩
  · cases (Prod.mk.inj (heq.symm.trans h)).2
  · cases (Prod.mk.inj (heq.symm.trans h)).2
  · exact absurd (Prod.mk.inj (heq.symm.trans h)).2 ha
  · rw [opened_of_loadLocked hload]
    exact ⟨disk', hload, hdigest, hwr, (Prod.mk.inj (heq.symm.trans h)).1.symm⟩

/-- **Any other answer**: nothing is gone, in memory or on file. -/
theorem acknowledge_other (hw : j.Wf)
    (h : j.acknowledge sha256 snapshotSHA256 read write again = (j', answer))
    (ha : answer ≠ .ok true) :
    (∀ r ∈ j.records, r ∈ j'.records) ∧ j'.unsettled = j.unsettled ∧ j'.live = j.live ∧
      ∀ p f, j.filed p = some f → ∃ f', j'.filed p = some f' := by
  -- loading leaves a loaded journal alone, and an unloaded one has no record to lose
  have hopen : ∀ {j₁}, j.loadLocked read = some j₁ → (∀ r ∈ j.records, r ∈ j₁.records) ∧
      j₁.unsettled = j.unsettled ∧ j₁.live = j.live ∧ ∀ p, j₁.filed p = j.filed p := by
    intro j₁ hload
    obtain ⟨_, _, hdisk, hlive, hun, hsame⟩ := loadLocked_changes hload
    refine ⟨fun r hr => ?_, hun, hlive, fun p => by rw [filed, filed, onDisk, onDisk, hdisk]⟩
    cases hl : j.loaded with
    | true => exact hsame hl ▸ hr
    | false =>
      rw [(hw.unloaded hl).1] at hr
      cases hr
  rcases acknowledge_cases sha256 snapshotSHA256 read write again j with
    ⟨e, heq⟩ | ⟨j₁, hload, ⟨e, heq⟩ | ⟨disk, hwr, ⟨a, _, heq⟩ | ⟨disk', _, _, heq⟩⟩⟩
  · obtain ⟨rfl, _⟩ := Prod.mk.inj (heq.symm.trans h)
    exact ⟨fun _ hr => hr, rfl, rfl, fun p f hf => ⟨f, hf⟩⟩
  · obtain ⟨rfl, _⟩ := Prod.mk.inj (heq.symm.trans h)
    obtain ⟨hrec, hun, hlive, hfiled⟩ := hopen hload
    exact ⟨hrec, hun, hlive, fun p f hf => ⟨f, (hfiled p).trans hf⟩⟩
  · obtain ⟨rfl, _⟩ := Prod.mk.inj (heq.symm.trans h)
    obtain ⟨hrec, hun, hlive, hfiled⟩ := hopen hload
    obtain ⟨hc, hl, _⟩ := loadLocked_changes hload
    have hw₁ := Changes.wf hc hw
    refine ⟨hrec, hun, hlive, fun p f hf => ?_⟩
    obtain ⟨r, hr⟩ := hw₁.superset hl ((hfiled p).trans hf)
    exact ⟨r, (filed_of_written hw₁.loadable hwr p).trans hr⟩
  · exact absurd (Prod.mk.inj (heq.symm.trans h)).2.symm ha

end Journal

namespace Ledger

open Journal (canonicalText)

theorem step_acknowledge {sha256 : List Char → Digest} {w w' : Ledger} {snapshotSHA256 : String}
    {read write again : Bool} {answer : Except JournalError Bool}
    (h : (machine sha256).step w (.acknowledge snapshotSHA256 read write again) =
      some (w', .acknowledged answer)) :
    w.journal.acknowledge sha256 snapshotSHA256 read write again = (w'.journal, answer) := by
  have hs := machine_step h
  dsimp only [step] at hs
  rcases hj : w.journal.acknowledge sha256 snapshotSHA256 read write again with ⟨j, e | _ | _⟩
  all_goals
    rw [hj] at hs
    obtain ⟨rfl, hout⟩ := Prod.mk.inj hs
    obtain rfl := Output.acknowledged.inj hout
    rfl

/-- **Acknowledgement is linear.**  If the hash does not collide on the texts of the exported
contents and of the present one, an acknowledgement answers true only while the journal holds what
the acknowledged snapshot exported; it then drops the records that are not live, which that
snapshot showed as they are, with the marks of their profiles, and keeps everything else.  With any
other answer no record and no mark is gone, neither in memory nor on file. -/
theorem acknowledge_linear (sha256 : List Char → Digest) (disk : Option (List Char))
    (w w' : Ledger) (hreach : (machine sha256).Reaches (fresh disk) w) (snapshotSHA256 : String)
    (read write again : Bool) (answer : Except JournalError Bool)
    (hstep : (machine sha256).step w (.acknowledge snapshotSHA256 read write again) =
      some (w', .acknowledged answer))
    (hinj : Set.InjOn sha256 (canonicalText ''
      { c | c = (w.journal.opened read).content ∨ c ∈ w.exported })) :
    (answer = .ok true →
      (sha256 (canonicalText (w.journal.opened read).content)).text = snapshotSHA256 ∧
      (∀ c ∈ w.exported, (sha256 (canonicalText c)).text = snapshotSHA256 →
        c = (w.journal.opened read).content) ∧
      w'.journal.records =
        (w.journal.opened read).records.filter (w.journal.opened read).isLive ∧
      (∀ r ∈ (w.journal.opened read).records, r ∉ w'.journal.records →
        (r, false) ∈ (w.journal.opened read).content) ∧
      (∀ p, w'.journal.unsettled p = true ↔ w.journal.unsettled p = true ∧
        ∀ r ∈ (w.journal.opened read).records, r.profileDigest = p → r ∈ w'.journal.records) ∧
      w'.journal.live = w.journal.live ∧ w'.journal.onDisk = some w'.journal.records) ∧
    (answer ≠ .ok true →
      (∀ r ∈ w.journal.records, r ∈ w'.journal.records) ∧
      w'.journal.unsettled = w.journal.unsettled ∧ w'.journal.live = w.journal.live ∧
      ∀ p f, w.journal.filed p = some f → ∃ f', w'.journal.filed p = some f') := by
  have hw := wf_of_reaches hreach
  have hack := step_acknowledge hstep
  refine ⟨?_, Journal.acknowledge_other hw hack⟩
  rintro rfl
  obtain ⟨disk', hload, hdigest, hwr, hj'⟩ := Journal.acknowledge_true hack
  obtain ⟨hc, hl, _, hlive, hun, _⟩ := Journal.loadLocked_changes hload
  have hw₁ := Journal.Changes.wf hc hw
  have hrecords : w'.journal.records =
      (w.journal.opened read).records.filter (w.journal.opened read).isLive := by
    rw [hj']
    rfl
  have hgone : ∀ r ∈ (w.journal.opened read).records,
      r ∉ w'.journal.records ↔ (w.journal.opened read).isLive r = false := by
    intro r hr
    rw [hrecords, List.mem_filter, not_and, Bool.not_eq_true]
    exact ⟨fun h => h hr, fun h _ => h⟩
  refine ⟨hdigest, fun c hc hd => ?_, hrecords, fun r hr hnot => ?_, fun p => ?_, ?_, ?_⟩
  · refine Journal.canonicalText_injective (hinj ⟨c, Or.inr hc, rfl⟩ ⟨_, Or.inl rfl, rfl⟩ ?_)
    exact Hex.text_injective (hd.trans hdigest.symm)
  · have hmem := Journal.mem_content hr
    rwa [(hgone r hr).mp hnot] at hmem
  · have hmark : w'.journal.unsettled p = (w.journal.unsettled p &&
        !(w.journal.opened read).records.any fun r =>
          Journal.ofProfile p r && !(w.journal.opened read).isLive r) := by
      rw [hj', ← hun]
      rfl
    rw [hmark, Bool.and_eq_true, Bool.not_eq_true', List.any_eq_false]
    refine and_congr_right fun _ => forall₂_congr fun r hr => ?_
    have := hgone r hr
    simp only [Journal.ofProfile, Bool.and_eq_true, decide_eq_true_eq, Bool.not_eq_true', ← this,
      not_and, not_not]
  · rw [hj']
    exact hlive
  · rw [hj', Journal.onDisk, hwr.2, Option.bind_some]
    exact readDocument_documentText (Journal.loadable_handOver hw₁.loadable) hwr.1

/-- A digest, and a hash that tells the text of an empty journal from all others. -/
def sampleDigest : Digest := ⟨String.ofList (List.replicate 64 'c'), by decide +kernel⟩
def sampleHash (text : List Char) : Digest :=
  if text = ['[', ']'] then sampleProfile else sampleDigest

/-- The empty journal is exported, a worker restricts its profile and ends, and the journal is
exported again. -/
def sampleExports : List Event :=
  .readRestrictions true true :: sampleRun ++
    [.finish sampleProfile sampleGeneration true, .readRestrictions true true]

theorem acknowledge_linear_sample :
    ∃ w w', (machine sampleHash).Reaches (fresh none) w ∧
      (machine sampleHash).step w (.acknowledge sampleDigest.text true true true) =
        some (w', .acknowledged (.ok true)) ∧
      w.journal.records.length = 1 ∧ w'.journal.records = [] ∧
      w.exported = [(w.journal.opened true).content, []] ∧
      ∀ c ∈ w.exported, (sampleHash (canonicalText c)).text = sampleDigest.text →
        c = (w.journal.opened true).content := by
  have hrun : (((machine sampleHash).run (fresh none) sampleExports).map fun w =>
      (decide (w.exported = [(w.journal.opened true).content, []] ∧
          sampleHash (canonicalText (w.journal.opened true).content) = sampleDigest ∧
          w.journal.records.length = 1 ∧
          (step sampleHash w (.acknowledge sampleDigest.text true true true)).1.journal.records =
            []),
        (step sampleHash w (.acknowledge sampleDigest.text true true true)).2)) =
      some (true, .acknowledged (.ok true)) := by
    decide +kernel
  obtain ⟨w, hw, hval⟩ := Option.map_eq_some_iff.mp hrun
  obtain ⟨hfacts, hout⟩ := Prod.mk.inj hval
  obtain ⟨hexp, hhash, hone, hnone⟩ := of_decide_eq_true hfacts
  have hstep : (machine sampleHash).step w (.acknowledge sampleDigest.text true true true) =
      some ((step sampleHash w (.acknowledge sampleDigest.text true true true)).1,
        .acknowledged (.ok true)) := by
    rw [← hout]
    rfl
  have hempty : sampleHash (canonicalText []) = sampleProfile := by decide
  have hne : sampleProfile ≠ sampleDigest := by decide +kernel
  have hreach := Machine.reaches_run hw
  have hinj : Set.InjOn sampleHash (canonicalText ''
      { c | c = (w.journal.opened true).content ∨ c ∈ w.exported }) := by
    rintro _ ⟨c, hc, rfl⟩ _ ⟨c', hc', rfl⟩ heq
    have hcases : ∀ c, (c = (w.journal.opened true).content ∨ c ∈ w.exported) →
        c = (w.journal.opened true).content ∨ c = [] := by
      intro c hc
      rw [hexp] at hc
      simpa using hc
    rcases hcases c hc with rfl | rfl <;> rcases hcases c' hc' with rfl | rfl
    · rfl
    · exact absurd (hempty.symm.trans (heq.symm.trans hhash)) hne
    · exact absurd (hempty.symm.trans (heq.trans hhash)) hne
    · rfl
  have h := (acknowledge_linear sampleHash none w _ hreach _ true true true _ hstep hinj).1 rfl
  exact ⟨w, _, hreach, hstep, hone, hnone, hexp, h.2.1⟩

end Ledger

end PokrovCore.Daemon
