import VoxelSchematic.Command.Run
import VoxelSchematic.Command.Sandbox
import VoxelSchematic.Proofs.Gzip.Stored
import VoxelSchematic.Proofs.Registry.Document
import VoxelSchematic.Proofs.Schematic.ShortTexts

/-!
# Files that a remapping leaves alone

A remapping has read its registry and its input and made the schematic before it creates its output.
What can still fail then is writing the schematic out.

* `FileTree.openFile_of_createFile`: a file that was just created holds what was written to it.
* `Command.Comes` says what a session comes to that only reads files, and `Command.comes_prepare`
  that a remapping is such a session before it creates its output.
* `Command.Prepared` and `Command.Overlong`: there is something to write, and the registry has too
  long a name in it.
* `Command.remap_leaves_files`: if a remapping fails and files have changed, then it was for such a
  name. The output has been emptied by then.

Which bytes are left in the output depends on how it is compressed, so this is said of any lawful
compressor, by what a reader would get from them.
-/

namespace VoxelSchematic

/-! ## Created files -/

namespace FileTree

variable {t t' : FileTree} {path name : String} {place start finish : List String} {node : Node}
  {content : Array UInt8}

theorem find_eq_ok_iff : t.find path = .ok place ↔
    ('\x00' ∉ path.toList ∧ path.isEmpty = false ∧ path.utf8ByteSize ≤ maxPath) ∧
      (path.splitOn "/").foldlM t.step [] = .ok place := by
  unfold find
  by_cases hzero : '\x00' ∈ path.toList
  · rw [if_pos hzero]
    exact iff_of_false (by rintro ⟨⟩) fun h => h.1.1 hzero
  by_cases hempty : path.isEmpty = true
  · rw [if_neg hzero, if_pos hempty]
    exact iff_of_false (by rintro ⟨⟩) fun h => Bool.eq_false_iff.1 h.1.2.1 hempty
  by_cases hlong : maxPath < path.utf8ByteSize
  · rw [if_neg hzero, if_neg hempty, if_pos hlong]
    exact iff_of_false (by rintro ⟨⟩) fun h => Nat.not_le.2 hlong h.1.2.2
  · rw [if_neg hzero, if_neg hempty, if_neg hlong]
    exact (and_iff_right ⟨hzero, Bool.eq_false_iff.2 hempty, Nat.not_lt.1 hlong⟩).symm

theorem openFile_eq_bytes_iff : t.openFile path = .bytes content ↔
    ∃ place, t.find path = .ok place ∧ t.node? place = some (.file content) := by
  unfold openFile
  cases hfind : t.find path with
  | error obstacle =>
      cases obstacle <;> simp [Obstacle.opened]
  | ok place =>
      cases hnode : t.node? place with
      | none => simp [hnode]
      | some node =>
          cases node with
          | directory => simp [hnode]
          | file found => simp [hnode]

theorem createFile_eq_ok_iff : t.createFile path content = .ok t' ↔
    ∃ place, t.find path = .ok place ∧ t.node? place ≠ some .directory ∧
      t' = ⟨t.nodes.insert place (.file content)⟩ := by
  simp only [createFile, Outcome.except_bind_eq_ok_iff, Outcome.except_mapError_eq_ok_iff]
  refine exists_congr fun place => and_congr_right fun _ => ?_
  by_cases hnode : t.node? place = some .directory
  · rw [hnode]
    exact iff_of_false (by rintro ⟨⟩) fun h => h.1 rfl
  · split
    next hdirectory => exact absurd hdirectory hnode
    next =>
      rw [and_iff_right hnode]
      exact (iff_of_eq (Except.ok.injEq _ _)).trans eq_comm

/-- A step starts at a directory, so it does not see what is put elsewhere. -/
theorem step_insert (hplace : t.node? place ≠ some .directory)
    (hstep : t.step start name = .ok finish) :
    step ⟨t.nodes.insert place node⟩ start name = .ok finish := by
  unfold step at hstep ⊢
  have hsame : node? ⟨t.nodes.insert place node⟩ start = t.node? start := by
    have hne : place ≠ start := by
      rintro rfl
      split at hstep
      · cases hstep
      · cases hstep
      next hdirectory => exact hplace hdirectory
    simp [node?, Std.HashMap.getElem?_insert, hne]
  rw [hsame]
  exact hstep

theorem foldlM_step_insert {names : List String} (hplace : t.node? place ≠ some .directory)
    (hwalk : names.foldlM t.step start = .ok finish) :
    names.foldlM (step ⟨t.nodes.insert place node⟩) start = .ok finish := by
  induction names generalizing start with
  | nil => exact hwalk
  | cons name rest ih =>
      rw [List.foldlM_cons, Outcome.except_bind_eq_ok_iff] at hwalk ⊢
      rcases hwalk with ⟨next, hstep, hrest⟩
      exact ⟨next, step_insert hplace hstep, ih hrest⟩

/-- What is read from a file that was just created is what was written to it. -/
theorem openFile_of_createFile (created : t.createFile path content = .ok t') :
    t'.openFile path = .bytes content := by
  rcases createFile_eq_ok_iff.1 created with ⟨place, hfind, hplace, rfl⟩
  rcases find_eq_ok_iff.1 hfind with ⟨hpath, hwalk⟩
  refine openFile_eq_bytes_iff.2 ⟨place, find_eq_ok_iff.2 ⟨hpath, ?_⟩, ?_⟩
  · -- The walk went through directories only, and the place of the file is none.
    exact foldlM_step_insert hplace hwalk
  · have hroot : place ≠ [] := by
      rintro rfl
      exact hplace rfl
    simp [node?, hroot]

theorem exists_createFile {old : Array UInt8} (opened : t.openFile path = .bytes old)
    (content : Array UInt8) : ∃ t', t.createFile path content = .ok t' := by
  rcases openFile_eq_bytes_iff.1 opened with ⟨place, hfind, hplace⟩
  exact ⟨_, createFile_eq_ok_iff.2 ⟨place, hfind, by simp [hplace], rfl⟩⟩

/-- Whether a file can be created does not depend on what is to be written to it. -/
theorem exists_createFile_of_createFile (created : t.createFile path content = .ok t')
    (other : Array UInt8) : ∃ t'', t.createFile path other = .ok t'' := by
  rcases createFile_eq_ok_iff.1 created with ⟨place, hfind, hplace, -⟩
  exact ⟨_, createFile_eq_ok_iff.2 ⟨place, hfind, hplace, rfl⟩⟩

end FileTree

theorem Gzip.Compressor.expand_toGzip [Gzip.Compressor] [Gzip.Compressor.Lawful] (file : TagFile) :
    Gzip.expand file.toGzip.bytes = ⟨file.toBytes.bytes, .exhausted⟩ :=
  Gzip.Compressor.Lawful.expand_compress file.toBytes.bytes

namespace Command

open Schematic Telling Wire

/-! ## Sessions in a sandbox -/

section

variable {α β ε : Type} {t : FileTree}

/-- The outcome of a session in a sandbox, and the sandbox that it leaves. -/
def inSandbox (session : Session (StateM Sandbox) α) (s : Sandbox) :
    Except CommandError α × Sandbox :=
  session.run.run s

/-- With these files, the session comes to the outcome and leaves all files as they are. -/
def Comes (session : Session (StateM Sandbox) α) (t : FileTree) (outcome : Except CommandError α) :
    Prop :=
  ∀ said, ∃ said', inSandbox session ⟨t, said⟩ = (outcome, ⟨t, said'⟩)

theorem comes_pure (a : α) : Comes (pure a) t (.ok a) := fun said => ⟨said, rfl⟩

theorem comes_throw (fault : CommandError) : Comes (throw fault : Session _ α) t (.error fault) :=
  fun said => ⟨said, rfl⟩

theorem comes_emit (event : Event) : Comes (emit event) t (.ok ()) :=
  fun said => ⟨said.push event, rfl⟩

theorem comes_openFile (path : String) :
    Comes (ExceptT.lift (Host.openFile path)) t (.ok (t.openFile path)) := fun said => ⟨said, rfl⟩

theorem inSandbox_bind (session : Session (StateM Sandbox) α)
    (next : α → Session (StateM Sandbox) β) (s : Sandbox) :
    inSandbox (session >>= next) s =
      match inSandbox session s with
      | (.ok a, mid) => inSandbox (next a) mid
      | (.error fault, mid) => (.error fault, mid) := by
  unfold inSandbox
  rw [ExceptT.run_bind, StateT.run_bind]
  rcases session.run.run s with ⟨outcome, mid⟩
  cases outcome with
  | ok a => rfl
  | error fault => rfl

theorem Comes.bind {session : Session (StateM Sandbox) α} {next : α → Session (StateM Sandbox) β}
    {outcome : Except CommandError α} {last : α → Except CommandError β}
    (h : Comes session t outcome) (hnext : ∀ a, Comes (next a) t (last a)) :
    Comes (session >>= next) t (outcome >>= last) := by
  intro said
  rcases h said with ⟨mid, hsession⟩
  rw [inSandbox_bind, hsession]
  cases outcome with
  | ok a => exact hnext a mid
  | error fault => exact ⟨mid, rfl⟩

theorem comes_forM (notices : List Notice) :
    Comes (notices.forM fun notice => emit (.record notice.toLog)) t (.ok ()) := by
  induction notices with
  | nil => exact comes_pure ()
  | cons notice rest ih => exact (comes_emit _).bind fun _ => ih

/-- Work inside a session comes to its own outcome. -/
theorem comes_doing (fault : ε → CommandError) (work : Telling ε α) :
    Comes (doing fault work) t (work.hear.1.mapError fault) := by
  unfold doing
  rcases work.hear with ⟨outcome, notices⟩
  have hnotices := comes_forM (t := t) notices
  cases outcome with
  | ok value => exact hnotices.bind fun _ => comes_pure value
  | error e => exact hnotices.bind fun _ => comes_throw (fault e)

theorem comes_doing_ofExcept (fault : ε → CommandError) (result : Except ε α) :
    Comes (doing fault (Telling.ofExcept result)) t (result.mapError fault) := by
  have hdone := comes_doing (t := t) fault (Telling.ofExcept result)
  cases result with
  | ok value => exact hdone
  | error e => exact hdone

/-! ## What a remapping makes of files -/

/-- The registry in a file, by what comes of opening it. -/
def registryIn : Opened → Except CommandError Registry
  | .missing reason | .refused reason => .error (.registry (.io reason))
  | .unreadable reason => .error (.registry (.json reason))
  | .bytes content => (Registry.ofDocument content.toList).mapError .registry

/-- The schematic in a file, by what comes of opening it. -/
def schematicIn : Opened → Except CommandError TagFile
  | .missing reason | .refused reason => .error (.io reason)
  | .unreadable reason => .error (.schematic (.io reason))
  | .bytes content => ((TagFile.ofEither content).mapError SchematicError.ofTag).mapError .schematic

/-- What a remapping has to write, and the clipboard it has read. -/
def remapped (t : FileTree) (input registryPath : String) :
    Except CommandError (Clipboard × TagFile) := do
  let registry ← registryIn (t.openFile registryPath)
  let file ← schematicIn (t.openFile input)
  let clipboard ← (file.readClipboard registry).hear.1.mapError .schematic
  let written ← (clipboard.toFile registry).hear.1.mapError .schematic
  return (clipboard, written)

theorem comes_loadRegistry (path : String) :
    Comes (loadRegistry path) t (registryIn (t.openFile path)) := by
  change Comes (ExceptT.lift (Host.openFile path) >>= _) t (.ok (t.openFile path) >>= registryIn)
  apply (comes_openFile path).bind
  intro opened
  cases opened with
  | missing reason => exact comes_throw _
  | refused reason => exact comes_throw _
  | unreadable reason => exact comes_throw _
  | bytes content => exact comes_doing_ofExcept _ _

theorem comes_openSchematic (path : String) :
    Comes (openSchematic path) t (schematicIn (t.openFile path)) := by
  change Comes (ExceptT.lift (Host.openFile path) >>= _) t (.ok (t.openFile path) >>= schematicIn)
  apply (comes_openFile path).bind
  intro opened
  cases opened with
  | missing reason => exact comes_throw _
  | refused reason => exact comes_throw _
  | unreadable reason => exact comes_throw _
  | bytes content => exact comes_doing_ofExcept _ _

/-- The part of a remapping that only reads files. -/
def prepare (input registryPath : String) : Session (StateM Sandbox) (Clipboard × TagFile) := do
  let registry ← loadRegistry registryPath
  let file ← openSchematic input
  let clipboard ← doing .schematic (file.readClipboard registry)
  let written ← doing .schematic (clipboard.toFile registry)
  return (clipboard, written)

theorem comes_prepare (input registryPath : String) :
    Comes (prepare input registryPath) t (remapped t input registryPath) := by
  apply (comes_loadRegistry registryPath).bind
  intro registry
  apply (comes_openSchematic input).bind
  intro file
  apply (comes_doing _ (file.readClipboard registry)).bind
  intro clipboard
  apply (comes_doing _ (clipboard.toFile registry)).bind
  intro written
  exact comes_pure (clipboard, written)

/-- The part of a remapping that creates its output. -/
def deliver [Gzip.Compressor] (output : String) (made : Clipboard × TagFile) :
    Session (StateM Sandbox) Unit := do
  let image := made.2.toGzip
  match ← ExceptT.lift (Host.createFile output image.bytes) with
  | .error reason => throw (.io reason)
  | .ok () =>
      match image.fault with
      | some fault => throw (.schematic (.ofTag fault))
      | none =>
          emit (.record ⟨.info, s!"wrote {made.1.region.volume} cells to {output}"⟩)

theorem runRemap_eq [Gzip.Compressor] (input output registryPath : String) :
    runRemap input output registryPath = prepare input registryPath >>= deliver output := by
  simp only [prepare, bind_assoc, pure_bind]
  rfl

variable {output : String} {made : Clipboard × TagFile} {s : Sandbox}

theorem inSandbox_createFile (path : String) (content : Array UInt8) (s : Sandbox) :
    inSandbox (ExceptT.lift (Host.createFile path content)) s =
      (.ok (s.createFile path content).1, (s.createFile path content).2) := rfl

theorem inSandbox_deliver_of_error [Gzip.Compressor] {reason : String}
    (h : s.files.createFile output made.2.toGzip.bytes = .error reason) :
    inSandbox (deliver output made) s = (.error (.io reason), s) := by
  have hcreate : s.createFile output made.2.toGzip.bytes = (.error reason, s) := by
    rw [Sandbox.createFile, h]
  rw [deliver, inSandbox_bind, inSandbox_createFile, hcreate]
  rfl

/-- Once the output has been created, only a fault in what was to be written can stop a session. -/
theorem inSandbox_deliver_of_ok [Gzip.Compressor] {files : FileTree}
    (h : s.files.createFile output made.2.toGzip.bytes = .ok files) :
    ∃ said, inSandbox (deliver output made) s =
      (made.2.toBytes.fault.elim (.ok ()) fun fault => .error (.schematic (.ofTag fault)),
        ⟨files, said⟩) := by
  have hcreate : s.createFile output made.2.toGzip.bytes = (.ok (), ⟨files, s.said⟩) := by
    rw [Sandbox.createFile, h]
  have hfault : made.2.toGzip.fault = made.2.toBytes.fault := rfl
  rw [deliver, inSandbox_bind, inSandbox_createFile, hcreate, hfault]
  cases made.2.toBytes.fault with
  | some fault => exact ⟨s.said, rfl⟩
  | none => exact ⟨_, rfl⟩

theorem deliver_fails [Gzip.Compressor] {fault : CommandError} {after : Sandbox}
    (failed : inSandbox (deliver output made) s = (.error fault, after)) :
    after.files = s.files ∨ ∃ found, made.2.toBytes.fault = some found ∧
      fault = .schematic (.ofTag found) ∧
      s.files.createFile output made.2.toGzip.bytes = .ok after.files := by
  cases hcreate : s.files.createFile output made.2.toGzip.bytes with
  | error reason =>
      cases failed.symm.trans (inSandbox_deliver_of_error hcreate)
      exact .inl rfl
  | ok files =>
      rcases inSandbox_deliver_of_ok hcreate with ⟨said, hdeliver⟩
      -- The output is there now, so this must have been a fault in what was to be written.
      cases hfault : made.2.toBytes.fault with
      | none =>
          rw [hfault] at hdeliver
          cases failed.symm.trans hdeliver
      | some found =>
          rw [hfault] at hdeliver
          cases failed.symm.trans hdeliver
          exact .inr ⟨found, rfl, rfl, rfl⟩

/-! ## What has gone well before the output is created -/

theorem registryIn_eq_ok_iff {opened : Opened} {r : Registry} : registryIn opened = .ok r ↔
    ∃ document, opened = .bytes document ∧ Registry.ofDocument document.toList = .ok r := by
  cases opened with
  | bytes content => simp [registryIn, Outcome.except_mapError_eq_ok_iff]
  | _ => simp [registryIn]

theorem schematicIn_eq_ok_iff {opened : Opened} {file : TagFile} : schematicIn opened = .ok file ↔
    ∃ content, opened = .bytes content ∧ TagFile.ofEither content = .ok file := by
  cases opened with
  | bytes content => simp [schematicIn, Outcome.except_mapError_eq_ok_iff]
  | _ => simp [schematicIn]

theorem hear_eq_ok_iff {work : Telling ε α} {value : α} :
    work.hear.1 = .ok value ↔ ∃ said, work #[] = .ok value said := by
  unfold hear
  cases work #[] with
  | ok found said => simp
  | error fault said => simp

/-- The registry and the input were read, and there is something to write. -/
structure Prepared (t : FileTree) (input registryPath : String) (registry : Registry)
    (clipboard : Clipboard) (written : TagFile) : Prop where
  loaded : ∃ document, t.openFile registryPath = .bytes document ∧
    Registry.ofDocument document.toList = .ok registry
  read : ∃ content file said, t.openFile input = .bytes content ∧
    TagFile.ofEither content = .ok file ∧ file.readClipboard registry #[] = .ok clipboard said
  written : ∃ said, clipboard.toFile registry #[] = .ok written said

theorem remapped_eq_ok_iff {input registryPath : String} :
    remapped t input registryPath = .ok made ↔
      ∃ registry, Prepared t input registryPath registry made.1 made.2 := by
  rcases made with ⟨clipboard, written⟩
  simp only [remapped, Outcome.except_bind_eq_ok_iff, Outcome.except_mapError_eq_ok_iff,
    registryIn_eq_ok_iff, schematicIn_eq_ok_iff, hear_eq_ok_iff]
  constructor
  · rintro ⟨registry, hloaded, file, ⟨content, hopen, hfile⟩, _, ⟨said, hread⟩, _, hwritten, hmade⟩
    cases hmade
    exact ⟨registry, hloaded, ⟨content, file, said, hopen, hfile, hread⟩, hwritten⟩
  · rintro ⟨registry, hloaded, ⟨content, file, said, hopen, hfile, hread⟩, hwritten⟩
    exact ⟨registry, hloaded, file, ⟨content, hopen, hfile⟩, clipboard, ⟨said, hread⟩, written,
      hwritten, rfl⟩

/-- The registry has a name for a number of the clipboard that no schematic can hold. -/
def Overlong (registry : Registry) (clipboard : Clipboard) (name : String) : Prop :=
  65535 < name.utf8ByteSize ∧
    ∃ kind id, (kind, id) ∈ clipboard.namedIds ∧ registry.name? kind id = some name

variable {input registryPath : String} {registry : Registry} {clipboard : Clipboard}
  {written : TagFile}

/-- The texts of a schematic that was made are too long where names are. -/
theorem Prepared.mem_namedTexts_iff
    (h : Prepared t input registryPath registry clipboard written) {name : String}
    (long : 65535 < name.utf8ByteSize) :
    name ∈ written.root.namedTexts written.name ↔ Overlong registry clipboard name := by
  rcases h with ⟨⟨document, -, hloaded⟩, ⟨content, file, said, -, hfile, hread⟩, said', hwritten⟩
  rcases TagFile.written_of_readClipboard (.ofDocument hloaded) hfile hread with
    ⟨root, hyields, htexts⟩
  cases hyields.eq_of_ok hwritten
  rw [htexts name long, Overlong, and_iff_right long]

theorem Prepared.fault_eq_some {fault : TagError}
    (h : Prepared t input registryPath registry clipboard written)
    (hfault : written.toBytes.fault = some fault) :
    ∃ name, Overlong registry clipboard name ∧ fault = .stringTooLong name.utf8ByteSize := by
  rcases fault_image_eq_some_iff.1 hfault with ⟨short, name, long, htexts, -, hlong, hname⟩
  have hmem : name ∈ written.root.namedTexts written.name := by simp [htexts]
  exact ⟨name, (h.mem_namedTexts_iff hlong).1 hmem, hname⟩

theorem Prepared.exists_fault (h : Prepared t input registryPath registry clipboard written)
    {name : String} (overlong : Overlong registry clipboard name) :
    ∃ fault, written.toBytes.fault = some fault := by
  have hmem := (h.mem_namedTexts_iff overlong.1).2 overlong
  rcases exists_first_long fun hall => Nat.not_le.2 overlong.1 (hall name hmem) with
    ⟨short, first, long, htexts, hshort, hlong⟩
  exact ⟨_, fault_image_eq_some_iff.2 ⟨short, first, long, htexts, hshort, hlong, rfl⟩⟩

/-! ## The whole remapping -/

theorem run_of_error [Gzip.Compressor] {fault : CommandError}
    (h : remapped s.files input registryPath = .error fault) :
    ∃ said, inSandbox (Command.remap input output registryPath).run s =
      (.error fault, ⟨s.files, said⟩) := by
  rcases comes_prepare input registryPath s.said with ⟨said, hprepare⟩
  refine ⟨said, ?_⟩
  rw [run, runRemap_eq, inSandbox_bind, hprepare, h]

theorem run_of_ok [Gzip.Compressor] (h : remapped s.files input registryPath = .ok made) :
    ∃ said, inSandbox (Command.remap input output registryPath).run s =
      inSandbox (deliver output made) ⟨s.files, said⟩ := by
  rcases comes_prepare input registryPath s.said with ⟨said, hprepare⟩
  refine ⟨said, ?_⟩
  rw [run, runRemap_eq, inSandbox_bind, hprepare, h]

/-- Where a name is too long, the output is created, and then the remapping fails. -/
theorem Prepared.run_of_overlong [Gzip.Compressor]
    (h : Prepared s.files input registryPath registry clipboard written) {name : String}
    (overlong : Overlong registry clipboard name) {files : FileTree}
    (created : s.files.createFile output written.toGzip.bytes = .ok files) :
    ∃ name said, Overlong registry clipboard name ∧
      inSandbox (Command.remap input output registryPath).run s =
        (.error (.schematic (.format (.stream (.stringTooLong name.utf8ByteSize)))),
          ⟨files, said⟩) := by
  have hmade : remapped s.files input registryPath = .ok (clipboard, written) :=
    remapped_eq_ok_iff.2 ⟨registry, h⟩
  rcases run_of_ok hmade with ⟨mid, hrun⟩
  have hcreated : (Sandbox.mk s.files mid).files.createFile output
      (clipboard, written).2.toGzip.bytes = .ok files := created
  rcases inSandbox_deliver_of_ok hcreated with ⟨said, hdeliver⟩
  rcases h.exists_fault overlong with ⟨fault, hfault⟩
  rcases h.fault_eq_some hfault with ⟨first, hfirst, rfl⟩
  refine ⟨first, said, hfirst, ?_⟩
  rw [hrun, hdeliver, hfault]
  rfl

/-- A remapping that fails leaves all files as they are, unless the registry has too long a name for
a number of the clipboard. Only when it writes this name does a remapping find out, and by then it
has created its output, in which the beginning of the schematic is left. -/
theorem remap_leaves_files [Gzip.Compressor] [Gzip.Compressor.Lawful] (before : Sandbox)
    (input output registryPath : String) :
    (∀ fault after,
        inSandbox (Command.remap input output registryPath).run before = (.error fault, after) →
        after.files = before.files ∨ ∃ registry clipboard written name content,
          Prepared before.files input registryPath registry clipboard written ∧
          Overlong registry clipboard name ∧
          fault = .schematic (.format (.stream (.stringTooLong name.utf8ByteSize))) ∧
          Gzip.expand content = ⟨written.toBytes.bytes, .exhausted⟩ ∧
          before.files.createFile output content = .ok after.files) ∧
      ∀ registry clipboard written name emptied,
        Prepared before.files input registryPath registry clipboard written →
        Overlong registry clipboard name →
        before.files.createFile output #[] = .ok emptied →
        ∃ fault after content,
          inSandbox (Command.remap input output registryPath).run before = (.error fault, after) ∧
          Gzip.expand content = ⟨written.toBytes.bytes, .exhausted⟩ ∧
          before.files.createFile output content = .ok after.files := by
  constructor
  · intro fault after failed
    cases hmade : remapped before.files input registryPath with
    | error e =>
        rcases run_of_error hmade with ⟨said, hrun⟩
        cases failed.symm.trans hrun
        exact .inl rfl
    | ok made =>
        rcases run_of_ok hmade with ⟨mid, hrun⟩
        rcases deliver_fails (hrun.symm.trans failed) with hsame | ⟨found, hfault, rfl, hcreate⟩
        · exact .inl hsame
        · rcases remapped_eq_ok_iff.1 hmade with ⟨registry, hprepared⟩
          rcases hprepared.fault_eq_some hfault with ⟨name, hname, rfl⟩
          exact .inr ⟨registry, made.1, made.2, name, _, hprepared, hname, rfl,
            Gzip.Compressor.expand_toGzip made.2, hcreate⟩
  · intro registry clipboard written name emptied hprepared hname hemptied
    rcases FileTree.exists_createFile_of_createFile hemptied written.toGzip.bytes with
      ⟨files, hcreate⟩
    rcases hprepared.run_of_overlong hname hcreate with ⟨first, said, -, hrun⟩
    exact ⟨_, _, _, hrun, Gzip.Compressor.expand_toGzip written, hcreate⟩

end

/-! ## A remapping in place -/

/-- A schematic with one block. -/
def stoneFile : TagFile where
  name := rootName
  root := .compound ⟨[("Width", .short 1), ("Height", .short 1), ("Length", .short 1),
    ("Materials", .string "Alpha"), ("Blocks", .byteArray #[1]), ("Data", .byteArray #[0]),
    ("TileEntities", .list (TagList.ofCompounds []))]⟩

def stoneClipboard : Clipboard where
  region := ⟨.zero, 1, 1, 1⟩
  origin := .zero
  cells := #[⟨1, 0, none⟩]
  size_cells := rfl

theorem ofEither_stoneFile : TagFile.ofEither stoneFile.toBytes.bytes = .ok stoneFile := by cbv

theorem yields_readClipboard_stoneFile (r : Registry) :
    Yields (stoneFile.readClipboard r) stoneClipboard := by
  let d : Decoded :=
    { region := ⟨.zero, 1, 1, 1⟩, origin := .zero, planes := { blocks := #[1], data := #[0] },
      conversion := {}, anchored := Decoded.anchoredTrees {} [], entities := [] }
  have hread : Silently (Decoded.ofFile r stoneFile) d := fun _ => rfl
  have htree : d.anchored[d.region.relativePosition 0]? = none :=
    (Decoded.getElem?_anchoredTrees_eq _ _ _).trans (by cbv)
  exact TagFile.yields_readClipboard_single hread.yields (by decide) rfl rfl rfl rfl rfl
    (congrArg (Cell.mk 1 0) htree)

/-- A registry in which the block of the schematic has a name. -/
def naming (name : String) : Registry := ⟨IdTable.empty.pair name 1, .empty⟩

theorem built_naming (name : String) : (naming name).Built :=
  @Registry.Built.withBlock _ _ name 1 .empty rfl

/-- The file of such a registry. -/
def namingFile (name : String) : Array UInt8 := (naming name).toDocument.toUTF8.data

theorem exists_ofDocument_namingFile (name : String) :
    ∃ r, Registry.ofDocument (namingFile name).toList = .ok r ∧ r.name? .block 1 = some name := by
  have hparsed := Registry.tables?_toDocument (naming name)
  rw [← namingFile] at hparsed
  have hunshared : ∀ kind,
      Registry.Unshared (Registry.namesOf (naming name).statedTables kind).toList := by
    intro kind a b id ha hb
    rw [Std.TreeMap.mem_toList_iff_getElem?_eq_some, Registry.getElem?_statedTables] at ha hb
    exact (built_naming name).id?_inj kind ha hb
  rcases (Registry.exists_ofDocument_iff hparsed).2 hunshared with ⟨r, hread⟩
  refine ⟨r, hread, ?_⟩
  rw [← (Registry.Built.ofDocument hread).id?_eq_some_iff, Registry.id?_eq,
    Registry.id?_of_names ((Registry.ofDocument_of_tables hparsed).1 hread .block),
    Registry.getElem?_statedTables, (built_naming name).id?_eq_some_iff]
  exact Std.TreeMap.getElem?_insert_self

/-- A sandbox with a schematic and a registry. -/
def twoFiles (schematic registry : Array UInt8) : Sandbox where
  files := ⟨((∅ : Std.HashMap (List String) Node).insert ["in"] (.file schematic)).insert ["r"]
    (.file registry)⟩

theorem openFile_twoFiles (schematic registry : Array UInt8) :
    (twoFiles schematic registry).files.openFile "in" = .bytes schematic ∧
      (twoFiles schematic registry).files.openFile "r" = .bytes registry := by
  have hfind : (twoFiles schematic registry).files.find "in" = .ok ["in"] ∧
      (twoFiles schematic registry).files.find "r" = .ok ["r"] := ⟨by cbv, by cbv⟩
  constructor
  · refine FileTree.openFile_eq_bytes_iff.2 ⟨["in"], hfind.1, ?_⟩
    exact (Std.HashMap.getElem?_insert.trans (if_neg (by decide))).trans
      Std.HashMap.getElem?_insert_self
  · refine FileTree.openFile_eq_bytes_iff.2 ⟨["r"], hfind.2, ?_⟩
    exact Std.HashMap.getElem?_insert_self

theorem prepared_twoFiles (name : String) : ∃ r written,
    Prepared (twoFiles stoneFile.toBytes.bytes (namingFile name)).files "in" "r" r stoneClipboard
      written ∧ r.name? .block 1 = some name := by
  rcases openFile_twoFiles stoneFile.toBytes.bytes (namingFile name) with ⟨hschematic, hregistry⟩
  rcases exists_ofDocument_namingFile name with ⟨r, hread, hname⟩
  rcases yields_readClipboard_stoneFile r #[] with ⟨said, hclipboard⟩
  rcases TagFile.written_of_readClipboard (.ofDocument hread) ofEither_stoneFile hclipboard with
    ⟨root, hwritten, -⟩
  exact ⟨r, _, ⟨⟨_, hregistry, hread⟩, ⟨_, _, _, hschematic, ofEither_stoneFile, hclipboard⟩,
    hwritten #[]⟩, hname⟩

theorem overlong_stoneClipboard_iff {r : Registry} {name : String} :
    Overlong r stoneClipboard name ↔
      65535 < name.utf8ByteSize ∧ r.name? .block 1 = some name := by
  have hused : stoneClipboard.namedIds = [(.block, 1)] := rfl
  simp [Overlong, hused]

theorem lt_utf8ByteSize_longText : 65535 < longText.utf8ByteSize := by
  rw [utf8ByteSize_longText]
  decide

/-- A schematic that cannot be read is left as it is, and one whose block has too long a name is
not. -/
theorem remap_leaves_files_twoFiles :
    (∃ fault after, inSandbox (Command.remap "in" "in" "r").run
        (twoFiles #[] (namingFile "stone")) = (.error fault, after) ∧
      after.files = (twoFiles #[] (namingFile "stone")).files) ∧
    ∃ fault after written content, inSandbox (Command.remap "in" "in" "r").run
        (twoFiles stoneFile.toBytes.bytes (namingFile longText)) = (.error fault, after) ∧
      Gzip.expand content = ⟨(TagFile.toBytes written).bytes, .exhausted⟩ ∧
      after.files.openFile "in" = .bytes content := by
  constructor
  · rcases openFile_twoFiles #[] (namingFile "stone") with ⟨hschematic, hregistry⟩
    rcases exists_ofDocument_namingFile "stone" with ⟨r, hread, -⟩
    have hempty : TagFile.ofEither #[] = .error .truncated := by cbv
    have hfails : remapped (twoFiles #[] (namingFile "stone")).files "in" "r" =
        .error (.schematic (.format (.stream .truncated))) := by
      rw [remapped, hregistry, hschematic, registryIn, hread, schematicIn, hempty]
      rfl
    rcases run_of_error hfails with ⟨said, hrun⟩
    rcases (remap_leaves_files _ "in" "in" "r").1 _ _ hrun with
      hsame | ⟨_, _, _, _, _, hprepared, -⟩
    · exact ⟨_, _, hrun, hsame⟩
    · rcases hprepared.read with ⟨content, file, -, hopen, hfile, -⟩
      cases hschematic.symm.trans hopen
      cases hempty.symm.trans hfile
  · have hschematic := (openFile_twoFiles stoneFile.toBytes.bytes (namingFile longText)).1
    rcases prepared_twoFiles longText with ⟨r, written, hprepared, hname⟩
    rcases FileTree.exists_createFile hschematic #[] with ⟨emptied, hemptied⟩
    rcases (remap_leaves_files _ "in" "in" "r").2 r stoneClipboard written longText emptied
      hprepared (overlong_stoneClipboard_iff.2 ⟨lt_utf8ByteSize_longText, hname⟩) hemptied with
      ⟨fault, after, content, hrun, hexpand, hcreated⟩
    exact ⟨fault, after, written, content, hrun, hexpand, FileTree.openFile_of_createFile hcreated⟩

/-- The schematic is no member, so no compressor makes it of anything. -/
theorem expand_stoneFile : Gzip.expand stoneFile.toBytes.bytes = ⟨#[], .corrupt⟩ := by cbv

/-- A schematic that is remapped in place is lost for a name that is too long. -/
theorem remap_in_place_loses_schematic :
    ∃ after,
      inSandbox (Command.remap "in" "in" "r").run
        (twoFiles stoneFile.toBytes.bytes (namingFile longText)) =
          (.error (.schematic (.format (.stream (.stringTooLong 65536)))), after) ∧
      (twoFiles stoneFile.toBytes.bytes (namingFile longText)).files.openFile "in" =
        .bytes stoneFile.toBytes.bytes ∧
      after.files.openFile "in" ≠ .bytes stoneFile.toBytes.bytes := by
  have hschematic := (openFile_twoFiles stoneFile.toBytes.bytes (namingFile longText)).1
  rcases prepared_twoFiles longText with ⟨r, written, hprepared, hname⟩
  rcases FileTree.exists_createFile hschematic written.toGzip.bytes with ⟨files, hcreated⟩
  rcases hprepared.run_of_overlong
    (overlong_stoneClipboard_iff.2 ⟨lt_utf8ByteSize_longText, hname⟩) hcreated with
    ⟨found, said, hoverlong, hrun⟩
  have hfound : longText = found :=
    Option.some.inj (hname.symm.trans (overlong_stoneClipboard_iff.1 hoverlong).2)
  rw [← hfound, utf8ByteSize_longText] at hrun
  refine ⟨_, hrun, hschematic, ?_⟩
  rw [FileTree.openFile_of_createFile hcreated]
  intro hsame
  have hexpand := Gzip.Compressor.expand_toGzip written
  rw [Opened.bytes.inj hsame, expand_stoneFile] at hexpand
  have hending : Gzip.Ending.corrupt = .exhausted := congrArg Gzip.Expanded.ending hexpand
  cases hending

end Command

end VoxelSchematic
