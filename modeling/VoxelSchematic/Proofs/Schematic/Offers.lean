import VoxelSchematic.Proofs.Content.Clipboard
import VoxelSchematic.Proofs.Notices
import VoxelSchematic.Proofs.Schematic.Accepted

/-!
# What a store is offered

A schematic is put into a store by offers: one block for each number of a cell, in order, and then
one entity after the other. The store may refuse any of them, and what it refuses may depend on all
that came before.

* `Answers` is such a run: a store, the offers with the answers that it gives, and what it becomes.
* `Decoded.reports_place`: whatever the answers are, every offer is made once and in order, each
  refusal is counted, and the first two are reported.
* `TagFile.readInto_answers` adds what this comes to for a clipboard of any region.
-/

namespace VoxelSchematic

open Telling

/-- Something that a store is asked to take. -/
inductive Offer where
  | block (position : BlockPos) (cell : Cell)
  | entity (entity : Entity)

/-- An offer with the answer that it got. -/
abbrev Answered := Offer × Except StoreError Unit

namespace Offer

variable {σ : Type} [BlockStore σ]

/-- The answer of a store, and what the store is after it. -/
def answer (store : σ) : Offer → Except StoreError Unit × σ
  | .block position cell => BlockStore.setBlock store position cell
  | .entity e => BlockStore.addEntity store e

/-- What is said of a refusal. -/
def refusal : Offer → StoreError → String
  | .block position _, fault => Placement.cellRefusal position fault
  | .entity e, fault => Placement.entityRefusal e.typeId fault

/-- Makes the offer to the store of a placement. -/
def put : Offer → Placement σ → Placement σ
  | .block position cell => Placement.offerCell position cell
  | .entity e => Placement.offerEntity e

end Offer

/-- A store is made these offers one after the other, gives these answers, and becomes another. -/
inductive Answers {σ : Type} [BlockStore σ] : σ → List Answered → σ → Prop
  | nothing (store : σ) : Answers store [] store
  | next {store mid final : σ} {offer : Offer} {answer : Except StoreError Unit}
      {rest : List Answered} :
      offer.answer store = (answer, mid) → Answers mid rest final →
        Answers store ((offer, answer) :: rest) final

/-- What is said of the offers that were refused, in order. -/
def refusals (answers : List Answered) : List String :=
  answers.filterMap fun answered =>
    match answered.2 with
    | .ok () => none
    | .error fault => some (answered.1.refusal fault)

/-- What is reported of refusals: the first as it is, and the second with the remark that there
will be no more. -/
def reported : List String → List String
  | [] => []
  | [first] => [first]
  | first :: second :: _ => [first, second ++ " (no more placement failures will be reported)"]

theorem length_reported (texts : List String) : (reported texts).length = min texts.length 2 := by
  match texts with
  | [] => rfl
  | [first] => rfl
  | first :: second :: rest => simp [reported]

theorem reported_append_singleton (before : List String) (what : String) :
    reported (before ++ [what]) =
      reported before ++ (Placement.refusalReport? before.length what).toList := by
  match before with
  | [] => rfl
  | [first] => rfl
  | first :: second :: rest => simp [reported, Placement.refusalReport?]

/-- Later refusals leave what has been reported. -/
theorem reported_append (before more : List String) :
    reported before <+: reported (before ++ more) := by
  induction more using List.reverseRecOn with
  | nil => rw [List.append_nil]
  | append_singleton rest what ih =>
      rw [← List.append_assoc, reported_append_singleton]
      exact ih.trans (List.prefix_append _ _)

/-- What is reported is what has been reported, and then what comes after it. -/
theorem map_warning_reported_append (before more : List String) :
    (reported (before ++ more)).map (Report.mk .warning) =
      (reported before).map (Report.mk .warning) ++
        ((reported (before ++ more)).drop (reported before).length).map (Report.mk .warning) := by
  rw [← List.map_append, List.prefix_iff_eq_append.1 (reported_append before more)]

section

variable {σ : Type} [BlockStore σ] {store mid final : σ} {answers more : List Answered}

theorem refusals_append (answers more : List Answered) :
    refusals (answers ++ more) = refusals answers ++ refusals more := List.filterMap_append

theorem Answers.append (h : Answers store answers mid) (hmore : Answers mid more final) :
    Answers store (answers ++ more) final := by
  induction h with
  | nothing store => exact hmore
  | next hanswer _ ih => exact .next hanswer (ih hmore)

/-! ## One offer and a run of offers -/

/-- A refusal is counted and joins the others; where the store accepts, nothing is said. -/
theorem Offer.put_eq {offer : Offer} {answer : Except StoreError Unit} (before : List String)
    (h : offer.answer store = (answer, mid)) :
    offer.put ⟨store, before.length, reported before⟩ =
      ⟨mid, (before ++ refusals [(offer, answer)]).length,
        reported (before ++ refusals [(offer, answer)])⟩ := by
  cases answer with
  | ok _ =>
      have hnone : refusals [(offer, .ok ())] = [] := rfl
      rw [hnone, List.append_nil]
      cases offer with
      | block position cell =>
          change BlockStore.setBlock store position cell = _ at h
          simp only [put, Placement.offerCell, h]
      | entity e =>
          change BlockStore.addEntity store e = _ at h
          simp only [put, Placement.offerEntity, h]
  | error fault =>
      have hsome : refusals [(offer, .error fault)] = [offer.refusal fault] := rfl
      rw [hsome, reported_append_singleton, List.length_append, List.length_singleton]
      cases offer with
      | block position cell =>
          change BlockStore.setBlock store position cell = _ at h
          simp only [put, Placement.offerCell, h, Placement.refuse, refusal]
      | entity e =>
          change BlockStore.addEntity store e = _ at h
          simp only [put, Placement.offerEntity, h, Placement.refuse, refusal]

/-- Each offer is made once, whatever was refused before it. -/
theorem foldl_put (offers : List Offer) (store : σ) (before : List String) :
    ∃ answers final, Answers store answers final ∧ answers.map Prod.fst = offers ∧
      offers.foldl (fun p offer => offer.put p) ⟨store, before.length, reported before⟩ =
        ⟨final, (before ++ refusals answers).length, reported (before ++ refusals answers)⟩ := by
  -- The placement before each offer holds the refusals of the earlier ones and nothing else.
  induction offers generalizing store before with
  | nil => exact ⟨[], store, .nothing store, rfl, by simp [refusals]⟩
  | cons offer rest ih =>
      rcases hanswer : offer.answer store with ⟨answer, mid⟩
      rcases ih mid (before ++ refusals [(offer, answer)]) with ⟨answers, final, hrun, hoffers, hput⟩
      refine ⟨(offer, answer) :: answers, final, .next hanswer hrun, ?_, ?_⟩
      · rw [List.map_cons, hoffers]
      · have hsplit : refusals ((offer, answer) :: answers) =
            refusals [(offer, answer)] ++ refusals answers := refusals_append [(offer, answer)] answers
        rw [List.foldl_cons, Offer.put_eq before hanswer, hput, hsplit, List.append_assoc]

end

/-! ## Schematics -/

namespace Decoded

variable {σ ε : Type} [BlockStore σ]

def blockOffers (d : Decoded) : List Offer :=
  (List.range d.region.volume).map fun i => .block (d.region.position i) (d.cell i)

/-- What a schematic offers: the cell of each number at its position, and then the entities. -/
def offers (d : Decoded) : List Offer := d.blockOffers ++ d.entities.map .entity

theorem placeCells_eq_foldl (d : Decoded) (i count : Nat) (p : Placement σ) :
    d.placeCells i count p =
      ((List.range' i count).map fun i => .block (d.region.position i) (d.cell i)).foldl
        (fun p offer => Offer.put offer p) p := by
  induction count generalizing i p with
  | zero => rfl
  | succ count ih =>
      rw [placeCells, ih, List.range'_succ, List.map_cons, List.foldl_cons]
      rfl

theorem placeEntities_eq_foldl (d : Decoded) (p : Placement σ) :
    d.placeEntities p =
      (d.entities.map Offer.entity).foldl (fun p offer => offer.put p) p := by
  rw [placeEntities, List.foldl_map]
  rfl

/-- Whatever a store answers, it is made all offers, and its refusals are counted and reported. -/
theorem reports_place (d : Decoded) (store : σ) :
    ∃ answers final, Answers store answers final ∧ answers.map Prod.fst = d.offers ∧
      Reports (d.place store : Telling ε (Placement σ))
        ⟨final, (refusals answers).length, reported (refusals answers)⟩
        ((reported (refusals answers)).map (Report.mk .warning)) := by
  rcases foldl_put d.blockOffers store [] with ⟨blocks, mid, hblocks, hfirst, hcells⟩
  rcases foldl_put (d.entities.map Offer.entity) mid (refusals blocks) with
    ⟨entities, final, hentities, hsecond, hrest⟩
  rw [List.nil_append] at hcells
  rw [← refusals_append] at hrest
  have hoffers : (blocks ++ entities).map Prod.fst = d.offers := by
    rw [List.map_append, hfirst, hsecond, offers]
  refine ⟨blocks ++ entities, final, hblocks.append hentities, hoffers, ?_⟩
  have hplaced : d.placeCells 0 d.region.volume { store } =
      ⟨mid, (refusals blocks).length, reported (refusals blocks)⟩ := by
    rw [placeCells_eq_foldl, ← List.range_eq_range']
    exact hcells
  have hfilled : d.placeEntities ⟨mid, (refusals blocks).length, reported (refusals blocks)⟩ =
      ⟨final, (refusals (blocks ++ entities)).length, reported (refusals (blocks ++ entities))⟩ := by
    rw [placeEntities_eq_foldl]
    exact hrest
  unfold place
  simp only [hplaced, hfilled]
  -- The reports on blocks are made before the first entity is offered.
  rw [refusals_append, map_warning_reported_append]
  exact (reports_forM_warn _).bind (.after_log _ _ _ ((reports_forM_warn _).bind_unreported
    (.after_log _ _ _ (reports_pure _))))

end Decoded

/-! ## Clipboards -/

namespace Offer

/-- Whether a clipboard of a region takes what is offered. -/
def fits (region : Region) : Offer → Bool
  | .block position _ => region.contains position
  | .entity _ => true

end Offer

namespace Clipboard

variable {c mid final : Clipboard} {offer : Offer} {answer : Except StoreError Unit}
  {answers : List Answered} {cell : Cell} {p q : BlockPos}

/-- The cell at a position after an offer. -/
def cellAfter (c : Clipboard) (q : BlockPos) : Offer → Option Cell
  | .block p cell => if p = q ∧ c.region.contains p = true then some cell else c.get? q
  | .entity _ => c.get? q

/-- A clipboard takes the blocks inside its region, and every entity. -/
theorem of_answer (h : offer.answer c = (answer, mid)) :
    mid.region = c.region ∧
      (refusals [(offer, answer)]).length = [offer].countP (fun offer => !offer.fits c.region) ∧
      ∀ q, mid.get? q = c.cellAfter q offer := by
  cases offer with
  | entity e =>
      cases h
      exact ⟨rfl, rfl, fun q => rfl⟩
  | block p cell =>
      change c.setBlock p cell = _ at h
      unfold setBlock at h
      cases hp : c.region.indexOf? p with
      | some i =>
          have hin : c.region.contains p = true := by rw [Region.contains, hp, Option.isSome_some]
          simp only [hp] at h
          cases h
          refine ⟨rfl, ?_, fun q => ?_⟩
          · simp [refusals, Offer.fits, hin]
          · rw [get?_putAt hp, cellAfter, hin]
            simp only [and_true]
      | none =>
          have hout : c.region.contains p = false := by rw [Region.contains, hp, Option.isSome_none]
          simp only [hp] at h
          cases h
          refine ⟨rfl, ?_, fun q => ?_⟩
          · simp [refusals, Offer.fits, hout]
          · rw [cellAfter, hout]
            simp only [Bool.false_eq_true, and_false, if_false]

theorem region_of_answers (h : Answers c answers final) : final.region = c.region := by
  induction h with
  | nothing store => rfl
  | next hanswer _ ih => exact ih.trans (of_answer hanswer).1

/-- The refusals are the blocks outside the region. -/
theorem length_refusals (h : Answers c answers final) :
    (refusals answers).length =
      (answers.map Prod.fst).countP fun offer => !offer.fits c.region := by
  induction h with
  | nothing store => rfl
  | @next store mid final offer answer rest hanswer _ ih =>
      rcases of_answer hanswer with ⟨hregion, hcount, -⟩
      have hsplit : refusals ((offer, answer) :: rest) = refusals [(offer, answer)] ++ refusals rest :=
        refusals_append [(offer, answer)] rest
      rw [hsplit, List.length_append, hcount, ih, hregion, ← List.countP_append, List.map_cons,
        List.singleton_append]

/-- Where nothing is offered, nothing changes. -/
theorem get?_of_unoffered (h : Answers c answers final)
    (unoffered : ∀ cell, .block q cell ∉ answers.map Prod.fst) : final.get? q = c.get? q := by
  induction h with
  | nothing store => rfl
  | @next store mid final offer answer rest hanswer _ ih =>
      simp only [List.map_cons, List.mem_cons, not_or] at unoffered
      rw [ih fun cell => (unoffered cell).2, (of_answer hanswer).2.2]
      cases offer with
      | entity e => rfl
      | block p cell =>
          have hother : p ≠ q := fun hsame => (unoffered cell).1 (hsame ▸ rfl)
          exact if_neg fun hboth => hother hboth.1

/-- Where one cell is offered and no other, this cell stays. -/
theorem get?_of_offered (h : Answers c answers final) (offered : .block q cell ∈ answers.map Prod.fst)
    (alone : ∀ other, .block q other ∈ answers.map Prod.fst → other = cell)
    (inside : c.region.contains q = true) : final.get? q = some cell := by
  induction h with
  | nothing store => cases offered
  | @next store mid final offer answer rest hanswer hrest ih =>
      rcases of_answer hanswer with ⟨hregion, -, hcells⟩
      -- Either the cell is offered again later, or this offer was the last one for the position.
      by_cases hlater : .block q cell ∈ rest.map Prod.fst
      · refine ih hlater (fun other hother => alone other (List.mem_cons_of_mem _ hother)) ?_
        rw [hregion]
        exact inside
      · have hunoffered : ∀ other, .block q other ∉ rest.map Prod.fst := by
          intro other hother
          rw [alone other (List.mem_cons_of_mem _ hother)] at hother
          exact hlater hother
        have hoffer : offer = .block q cell := ((List.mem_cons.1 offered).resolve_right hlater).symm
        subst hoffer
        rw [get?_of_unoffered hrest hunoffered, hcells]
        exact if_pos ⟨rfl, inside⟩

end Clipboard

namespace Decoded

variable {ε : Type} {d : Decoded} {i : Nat}

theorem block_mem_offers (hi : i < d.region.volume) :
    .block (d.region.position i) (d.cell i) ∈ d.offers :=
  List.mem_append_left _ (List.mem_map.2 ⟨i, List.mem_range.2 hi, rfl⟩)

theorem of_block_mem_offers {q : BlockPos} {cell : Cell} (h : .block q cell ∈ d.offers) :
    ∃ i < d.region.volume, d.region.position i = q ∧ d.cell i = cell := by
  rcases List.mem_append.1 h with hblock | hentity
  · rcases List.mem_map.1 hblock with ⟨i, hi, hoffer⟩
    cases hoffer
    exact ⟨i, List.mem_range.1 hi, rfl, rfl⟩
  · rcases List.mem_map.1 hentity with ⟨e, -, hoffer⟩
    cases hoffer

/-- Entities fit everywhere, so only positions count. -/
theorem countP_offers (d : Decoded) (region : Region) :
    d.offers.countP (fun offer => !offer.fits region) =
      d.region.positions.countP fun position => !region.contains position := by
  have hentities : (d.entities.map Offer.entity).countP (fun offer => !offer.fits region) = 0 := by
    simp [List.countP_eq_zero, Offer.fits]
  rw [offers, List.countP_append, hentities, blockOffers, Region.positions, List.countP_map,
    List.countP_map]
  rfl

/-- A clipboard of air comes to hold the cells of the schematic that lie in its region, and refuses
the others. -/
theorem place_withOrigin (d : Decoded) (small : d.region.Small) (region : Region)
    (origin : BlockPos) :
    ∃ p reports, Reports (d.place (Clipboard.withOrigin region origin) :
        Telling ε (Placement Clipboard)) p reports ∧
      p.store.region = region ∧
      (∀ i < d.region.volume, region.contains (d.region.position i) = true →
        p.store.get? (d.region.position i) = some (d.cell i)) ∧
      (∀ q, region.contains q = true → q ∉ d.region.positions → p.store.get? q = some .air) ∧
      p.failed = d.region.positions.countP fun position => !region.contains position := by
  rcases d.reports_place (ε := ε) (Clipboard.withOrigin region origin) with
    ⟨answers, final, hrun, hoffers, hreports⟩
  refine ⟨_, _, hreports, Clipboard.region_of_answers hrun, fun i hi hin => ?_, fun q hin hq => ?_, ?_⟩
  · -- No other cell of the schematic has this position, also where positions wrap.
    refine Clipboard.get?_of_offered hrun (hoffers ▸ block_mem_offers hi) (fun other hother => ?_) hin
    rw [hoffers] at hother
    rcases of_block_mem_offers hother with ⟨j, hj, hposition, rfl⟩
    rw [Region.position_inj small.spanned hj hi hposition]
  · rw [Clipboard.get?_of_unoffered hrun fun cell hcell => ?_, Clipboard.get?_withOrigin hin]
    rw [hoffers] at hcell
    rcases of_block_mem_offers hcell with ⟨i, hi, hposition, -⟩
    exact hq (List.mem_map.2 ⟨i, List.mem_range.2 hi, hposition⟩)
  · refine (Clipboard.length_refusals hrun).trans ?_
    rw [hoffers]
    exact d.countP_offers region

end Decoded

/-- Every offer is made, every refusal counted and the first two reported. A clipboard has a region
whose cells can be counted in a word. -/
theorem TagFile.readInto_answers {r : Registry} {file : TagFile} {d : Decoded}
    {said mid : Array Notice} (read : Decoded.ofFile r file said = .ok d mid) :
    (∀ {σ : Type} [BlockStore σ] (store : Region → BlockPos → σ),
      ∃ answers final, ∃ notices : List Notice,
      Answers (store d.region d.origin) answers final ∧ answers.map Prod.fst = d.offers ∧
      file.readInto r store said =
        .ok ⟨final, (refusals answers).length, reported (refusals answers)⟩ (mid ++ notices) ∧
      reportsOf notices = (reported (refusals answers)).map (Report.mk .warning) ∧
      (reportsOf notices).length = min (refusals answers).length 2) ∧
    d.region.positions.Nodup ∧
    (∃ p said', file.readInto r Clipboard.withOrigin said = .ok p said' ∧ p.failed = 0) ∧
    ∀ (region : Region) (origin : BlockPos), region.volume < 2 ^ 64 → ∃ p said',
      file.readInto r (fun _ _ => Clipboard.withOrigin region origin) said = .ok p said' ∧
      p.store.region = region ∧
      (∀ i < d.region.volume, region.contains (d.region.position i) = true →
        p.store.get? (d.region.position i) = some (d.cell i)) ∧
      (∀ q, region.contains q = true → q ∉ d.region.positions → p.store.get? q = some .air) ∧
      p.failed = d.region.positions.countP fun position => !region.contains position := by
  have small : d.region.Small := by
    rcases Decoded.of_ofFile read with ⟨tree, records, -, hsays⟩
    exact hsays.small
  have hopen : ∀ {σ : Type} [BlockStore σ] (store : Region → BlockPos → σ),
      file.readInto r store said = d.place (store d.region d.origin) mid := by
    intro σ _ store
    exact Outcome.bind_of_ok (mapError_eq_ok_iff.2 read)
  refine ⟨fun store => ?stores, Region.nodup_positions small.spanned, ?own,
    fun region origin _ => ?others⟩
  case stores =>
    rcases d.reports_place (ε := SchematicError) (store d.region d.origin) with
      ⟨answers, final, hrun, hoffers, notices, htells, hnotices⟩
    refine ⟨answers, final, notices, hrun, hoffers, (hopen store).trans (htells mid), hnotices, ?_⟩
    rw [hnotices, List.length_map, length_reported]
  case own =>
    rcases d.place_withOrigin (ε := SchematicError) small d.region d.origin with
      ⟨p, reports, ⟨notices, htells, -⟩, -, -, -, hfailed⟩
    refine ⟨p, _, (hopen Clipboard.withOrigin).trans (htells mid), ?_⟩
    rw [hfailed, List.countP_eq_zero]
    intro position hposition
    rcases List.mem_map.1 hposition with ⟨i, hi, rfl⟩
    rw [Region.contains, Region.indexOf?_position small.spanned (List.mem_range.1 hi)]
    exact Bool.false_ne_true
  case others =>
    rcases d.place_withOrigin (ε := SchematicError) small region origin with
      ⟨p, reports, ⟨notices, htells, -⟩, hspec⟩
    exact ⟨p, _, (hopen _).trans (htells mid), hspec⟩

/-- A schematic of two blocks on both sides of the edge of the world. -/
def edgeFile : TagFile where
  name := Schematic.rootName
  root := .compound ⟨[("Width", .short 2), ("Height", .short 1), ("Length", .short 1),
    ("Materials", .string "Alpha"), ("WEOriginX", .int 2147483647), ("WEOriginY", .int 0),
    ("WEOriginZ", .int 0), ("WEOffsetX", .int 0), ("WEOffsetY", .int 0), ("WEOffsetZ", .int 0),
    ("Blocks", .byteArray #[1, 2]), ("Data", .byteArray #[0, 5]),
    ("TileEntities", .list (TagList.empty .compound))]⟩

def edgeDecoded : Decoded where
  region := ⟨⟨2147483647, 0, 0⟩, 2, 1, 1⟩
  origin := ⟨2147483647, 0, 0⟩
  planes := { blocks := #[1, 2], data := #[0, 5] }
  conversion := {}
  anchored := ∅
  entities := []

theorem silently_ofFile_edgeFile : Silently (Decoded.ofFile .empty edgeFile) edgeDecoded :=
  fun _ => rfl

/-- A clipboard that begins behind the edge takes the second block and refuses the first. -/
theorem readInto_answers_edgeFile :
    ∃ p said', edgeFile.readInto .empty
        (fun _ _ => Clipboard.withOrigin ⟨⟨-2147483648, 0, 0⟩, 1, 1, 1⟩ .zero) #[] = .ok p said' ∧
      p.store.get? ⟨-2147483648, 0, 0⟩ = some ⟨2, 5, none⟩ ∧ p.failed = 1 := by
  rcases TagFile.readInto_answers (silently_ofFile_edgeFile #[]) with ⟨-, -, -, hothers⟩
  rcases hothers ⟨⟨-2147483648, 0, 0⟩, 1, 1, 1⟩ .zero (by decide) with
    ⟨p, said', hread, -, hcells, -, hfailed⟩
  have hposition : edgeDecoded.region.position 1 = ⟨-2147483648, 0, 0⟩ := by decide
  have hcell : edgeDecoded.cell 1 = ⟨2, 5, none⟩ :=
    congrArg (Cell.mk 2 5) Std.HashMap.getElem?_empty
  have hsecond := hcells 1 (by decide) (by decide)
  rw [hposition, hcell] at hsecond
  exact ⟨p, said', hread, hsecond, hfailed.trans (by decide)⟩

end VoxelSchematic
