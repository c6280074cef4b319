import Yallnix.Proof.PrivateWork

namespace Yallnix

section
variable [Hardware]

open PrivateProcess (Fresh imagePage)

namespace KernelMemory

variable {m n k : KernelMemory} {p : Addr}

/-- `LoadProgram` first unmaps all pages of the old program. -/
theorem freeValidPages_unmaps {table : Addr} {count index : Nat}
    (done : m.freeValidPages table count index = .ok n) (i : Nat) (low : index ≤ i)
    (high : i < index + count) : (n.tables table).maps i = false := by
  induction count generalizing m index with
  | zero => omega
  | succ count ih =>
      obtain ⟨pte, read, done⟩ := Outcome.bind_eq_ok.mp done
      obtain ⟨-, found⟩ := readEntry_eq_ok.mp read
      rw [Int.toNat_natCast] at found
      have later : ∀ {k : KernelMemory}, k.freeValidPages table count (index + 1) = .ok n →
          (k.tables table).maps index = false → (n.tables table).maps i = false := by
        intro k done here
        by_cases same : i = index
        · subst same
          rw [PageTable.maps, (Writes.freeValidPages done).entries _ i fun _ => Or.inl (by omega)]
          exact here
        · exact ih done (by omega) (by omega)
      split at done
      · rename_i invalid
        refine later done ?_
        rw [maps_of_getElem? found]
        simpa using invalid
      · obtain ⟨k, wrote, done⟩ := Outcome.bind_eq_ok.mp done
        obtain ⟨inside, old, -, _, _, rfl⟩ := invalidatePageTableEntry_eq_ok wrote
        refine later done ?_
        exact (maps_store inside { old with valid := false } index).trans
          (if_pos (Int.toNat_natCast index).symm)

theorem Sole.freeValidPages_tends (sole : m.LiveSole) (member : p ∈ m.live)
    (done : m.freeValidPages (m.pcbs p).r1PageTable maxPtLen 0 = .ok n) :
    Tends p m n ∧ ∀ i, n.region1 p i = none := by
  have tends := Tends.of_writes sole member (sole.freeValidPages member done)
    (Writes.freeValidPages done)
  refine ⟨tends, fun i => ?_⟩
  by_cases low : i < maxPtLen
  · refine region1_of_invalid ?_
    rw [tends.table]
    exact freeValidPages_unmaps done i (Nat.zero_le i) (by omega)
  · exact region1_of_le (Nat.le_of_not_lt low)

/-- The last loop of `LoadProgram` changes the protection of the text. -/
theorem protectText_entries {table : Addr} {count index : Nat}
    (done : m.protectText table count index = .ok n) (i : Nat) :
    (n.tables table)[i]? = if index ≤ i ∧ i < index + count then
        (m.tables table)[i]?.map fun pte => { pte with prot := protReadExec }
      else (m.tables table)[i]? := by
  induction count generalizing m index with
  | zero =>
      cases done
      rw [if_neg (by omega)]
  | succ count ih =>
      obtain ⟨pte, read, done⟩ := Outcome.bind_eq_ok.mp done
      obtain ⟨-, found⟩ := readEntry_eq_ok.mp read
      rw [Int.toNat_natCast] at found
      obtain ⟨k, wrote, done⟩ := Outcome.bind_eq_ok.mp done
      obtain ⟨inside, _, _, rfl⟩ := setPageTableEntry_eq_ok wrote
      have stored := m.toMmu.store_tables { pte with prot := protReadExec } inside table i
      have next : (index : Int) + 1 = ((index + 1 : Nat) : Int) := (Nat.cast_succ index).symm
      rw [next] at done
      rw [ih done]
      by_cases here : i = index
      · subst here
        rw [if_neg (by omega), if_pos (by omega), found]
        exact stored.trans (if_pos ⟨rfl, (Int.toNat_natCast i).symm⟩)
      · have same := stored.trans (if_neg fun both => here (both.2.trans (Int.toNat_natCast index)))
        by_cases range : index + 1 ≤ i ∧ i < index + 1 + count
        · rw [if_pos range, if_pos (by omega)]
          exact congrArg _ same
        · rw [if_neg range, if_neg (by omega)]
          exact same

theorem Sole.protectText_tends {count : Nat} (sole : m.LiveSole) (member : p ∈ m.live)
    (done : m.protectText (m.pcbs p).r1PageTable count 0 = .ok n) : Tends p m n ∧
      ∀ i, n.region1 p i = if i < count then
          (m.region1 p i).map fun page => { page with prot := protReadExec }
        else m.region1 p i := by
  have writes := Writes.protectText done
  have tends := Tends.of_writes sole member (sole.protectText member done) writes
  refine ⟨tends, fun i => ?_⟩
  by_cases low : i < maxPtLen
  · have entry := protectText_entries done i
    have same : n.pages = m.pages := by
      obtain ⟨_, _, rfl⟩ := writes.rest
      rfl
    rw [Nat.zero_add] at entry
    rw [region1, region1, if_pos low, if_pos low, tends.table, entry, same]
    by_cases range : i < count
    · rw [if_pos range, if_pos ⟨Nat.zero_le i, range⟩]
      cases found : (m.tables (m.pcbs p).r1PageTable)[i]? with
      | none => rfl
      | some pte => cases valid : pte.valid <;> simp [Option.filter, valid]
    · rw [if_neg range, if_neg fun both => range both.2]
  · have high := Nat.le_of_not_lt low
    rw [region1_of_le high, region1_of_le high]
    split <;> rfl

/-- The stack of a program ends with region 1 and lies above its data. -/
def OnStack (request : ImageRequest) (i : Nat) : Prop :=
  maxPtLen ≤ loadStackPages request.argLengths + i ∧ i < maxPtLen

instance (request : ImageRequest) (i : Nat) : Decidable (OnStack request i) :=
  inferInstanceAs (Decidable (_ ∧ _))

/-- The loops map the pages, store the image and change the protection of the text. -/
theorem imagePage_of_phases {li : LoadInfo} {request : ImageRequest} {i : Nat}
    {mapped text data protect zeroed built : Option UserPage}
    (room : loadStackPages request.argLengths + li.tNpg + (li.idNpg + li.udNpg) < maxPtLen)
    (maps : if i < li.tNpg + (li.idNpg + li.udNpg) ∨ OnStack request i then Fresh mapped
      else mapped = none)
    (readText : text = if i < li.tNpg then
        mapped.map fun page => { page with bytes := request.image (maxPtLen + i) } else mapped)
    (readData : data = if li.tNpg ≤ i ∧ i < li.tNpg + li.idNpg then
        text.map fun page => { page with bytes := request.image (maxPtLen + i) } else text)
    (protects : protect = if i < li.tNpg then
        data.map fun page => { page with prot := protReadExec } else data)
    (zeroes : zeroed = if li.tNpg + li.idNpg ≤ i ∧ i < li.tNpg + (li.idNpg + li.udNpg) then
        protect.map fun page => { page with bytes := request.image (maxPtLen + i) } else protect)
    (builds : built = if OnStack request i then
        zeroed.map fun page => { page with bytes := request.image (maxPtLen + i) } else zeroed) :
    built = imagePage li request i := by
  unfold OnStack at maps builds
  subst readText readData protects zeroes builds
  unfold imagePage
  by_cases inText : i < li.tNpg
  · rw [if_pos (by omega)] at maps
    obtain ⟨bytes, rfl⟩ := maps
    simp (disch := omega) only [if_pos, if_neg, Option.map_some]
  by_cases inData : i < li.tNpg + (li.idNpg + li.udNpg)
  · rw [if_pos (by omega)] at maps
    obtain ⟨bytes, rfl⟩ := maps
    by_cases read : i < li.tNpg + li.idNpg
    all_goals simp (disch := omega) only [if_pos, if_neg, Option.map_some]
  by_cases inStack : maxPtLen ≤ loadStackPages request.argLengths + i ∧ i < maxPtLen
  · rw [if_pos (Or.inr inStack)] at maps
    obtain ⟨bytes, rfl⟩ := maps
    simp (disch := omega) only [if_pos, if_neg, Option.map_some]
  · rw [if_neg (by omega)] at maps
    subst maps
    simp (disch := omega) only [if_neg, Option.map_none]

/-- A contiguous image begins with region 1. -/
theorem vpn_of_loadText {addr pages : Nat}
    (place : ((addr : Int) - vmem1Base) / pageSize = pages) :
    addr / pageSize = maxPtLen + pages := by
  have positive : (pageSize : Int) ≠ 0 := Int.natCast_ne_zero.mpr pageSize_pos.ne'
  rw [vmem1Base, Int.natCast_mul, Int.sub_eq_add_neg, ← Int.neg_mul,
    Int.add_mul_ediv_right _ _ positive] at place
  have quotient := Int.natCast_div addr pageSize
  omega

/-- `LoadProgram` ends the process or leaves it with nothing but the image. -/
theorem Sole.loadImage_tends {li : LoadInfo} {request : ImageRequest} {code : Int}
    (sole : m.LiveSole) (quiet : m.Quiet) (member : p ∈ m.live)
    (register : m.regPtbr1 = (m.pcbs p).r1PageTable) (contiguous : li.Contiguous)
    (room : loadStackPages request.argLengths + loadData li + (li.idNpg + li.udNpg) < maxPtLen)
    (done : m.loadImage li request p = .ok (code, n)) (fed : n.frameList.starved = false) :
    Tends p m n ∧ (code = killCode ∨ code = successCode ∧
      (n.pcbs p).brk = (maxPtLen + (li.idNpg + li.udNpg + li.tNpg)) * pageSize ∧
      n.region1 p = imagePage li request) := by
  revert fed
  have stackPages := loadStackPages_nonneg request.argLengths
  rw [contiguous.data] at room
  obtain ⟨⟨found, first⟩, allocated, done⟩ := Outcome.bind_eq_ok.mp done
  have started := Tends.malloc sole member quiet allocated
  dsimp only at done
  split at done
  · cases done
    exact fun _ => ⟨started, Or.inl rfl⟩
  have own : ∀ {l}, Tends p m l → (first.pcbs p).r1PageTable = (l.pcbs p).r1PageTable :=
    fun tends => started.table.trans tends.table.symm
  have alive : ∀ {l}, Tends p m l → p ∈ l.live := fun tends => tends.stays.live ▸ member
  have loaded : ∀ {l}, Tends p m l → l.regPtbr1 = (l.pcbs p).r1PageTable := fun tends =>
    tends.stays.regPtbr1.trans (register.trans tends.table.symm)
  obtain ⟨second, freed, done⟩ := Outcome.bind_eq_ok.mp done
  obtain ⟨unmapped, empty⟩ := started.liveSole.freeValidPages_tends (alive started) freed
  have cleared := started.trans member unmapped
  obtain ⟨⟨textMapped, third⟩, mappedText, done⟩ := Outcome.bind_eq_ok.mp done
  have text : third.frameList.starved = false → Tends p m third ∧
      ∀ i, if i < li.tNpg then i < maxPtLen → Fresh (third.region1 p i)
        else third.region1 p i = none := fun fed => by
    obtain ⟨-, tends, views⟩ :=
      cleared.liveSole.mapPages_tends (alive cleared) (own cleared) mappedText fed
    refine ⟨cleared.trans member tends, fun i => ?_⟩
    have view := views i
    rw [empty i] at view
    simpa only [contiguous.text, Int.natCast_nonneg, true_and, Int.zero_add, Int.ofNat_lt]
      using view
  dsimp only at done
  split at done
  · cases done
    exact fun fed => ⟨(text fed).1, Or.inl rfl⟩
  obtain ⟨⟨dataMapped, fourth⟩, mappedData, done⟩ := Outcome.bind_eq_ok.mp done
  have data : fourth.frameList.starved = false → Tends p m fourth ∧
      ∀ i, if i < li.tNpg + (li.idNpg + li.udNpg) then Fresh (fourth.region1 p i)
        else fourth.region1 p i = none := fun fed => by
    obtain ⟨before, pages⟩ := text ((CallsFrames.steady.mapPages mappedData).fed fed)
    obtain ⟨-, tends, views⟩ :=
      before.liveSole.mapPages_tends (alive before) (own before) mappedData fed
    refine ⟨before.trans member tends, fun i => ?_⟩
    have view := views i
    have page := pages i
    dsimp only at view
    rw [contiguous.data] at view
    by_cases inText : i < li.tNpg
    · rw [if_neg (by omega)] at view
      rw [if_pos inText] at page
      rw [if_pos (by omega), view]
      exact page (by omega)
    by_cases inData : i < li.tNpg + (li.idNpg + li.udNpg)
    · rw [if_pos (by omega)] at view
      rw [if_pos inData]
      exact view (by omega)
    · rw [if_neg (by omega)] at view
      rw [if_neg inText] at page
      rw [if_neg inData, view, page]
  dsimp only at done
  split at done
  · cases done
    exact fun fed => ⟨(data fed).1, Or.inl rfl⟩
  obtain ⟨⟨stackMapped, fifth⟩, mappedStack, done⟩ := Outcome.bind_eq_ok.mp done
  let broken := fourth.updatePcb p fun pcb =>
    { pcb with brk := vmem1Base + (li.idNpg + li.udNpg + li.tNpg) * pageSize }
  have stack : fifth.frameList.starved = false → Tends p m fifth ∧
      ∀ i, if i < li.tNpg + (li.idNpg + li.udNpg) ∨ OnStack request i then
          Fresh (fifth.region1 p i)
        else fifth.region1 p i = none := fun fed => by
    obtain ⟨before, pages⟩ := data ((CallsFrames.steady.mapPages mappedStack).fed fed)
    have moved : Tends p m broken := before.updateBrk
    obtain ⟨-, tends, views⟩ :=
      moved.liveSole.mapPages_tends (alive moved) (own moved) mappedStack fed
    refine ⟨moved.trans member tends, fun i => ?_⟩
    have view := views i
    have page := pages i
    dsimp only at view
    rw [region1_updateBrk] at view
    unfold OnStack
    by_cases inStack : maxPtLen ≤ loadStackPages request.argLengths + i ∧ i < maxPtLen
    · rw [if_pos (by omega)] at view
      rw [if_pos (Or.inr inStack)]
      exact view inStack.2
    · by_cases high : maxPtLen ≤ i
      · rw [if_neg (by omega)]
        exact region1_of_le high
      · rw [if_neg (by omega)] at view
        rw [view]
        by_cases low : i < li.tNpg + (li.idNpg + li.udNpg)
        · rw [if_pos low] at page
          rw [if_pos (Or.inl low)]
          exact page
        · rw [if_neg low] at page
          rw [if_neg (by omega)]
          exact page
  dsimp only at done
  split at done
  · cases done
    exact fun fed => ⟨(stack fed).1, Or.inl rfl⟩
  split at done
  · cases done
    exact fun fed => ⟨(stack fed).1, Or.inl rfl⟩
  obtain ⟨sixth, readText, done⟩ := Outcome.bind_eq_ok.mp done
  have fed_of_fillPages : ∀ {l k : KernelMemory} {count vpn : Nat},
      l.fillPages request.image count vpn = .ok k → k.frameList.starved = false →
        l.frameList.starved = false := fun filled fed =>
    (LeavesSites.fillPages filled).frameList ▸ fed
  have textVpn : li.tVaddr / pageSize = maxPtLen + 0 := vpn_of_loadText contiguous.text
  have dataVpn : li.idVaddr / pageSize = maxPtLen + li.tNpg := vpn_of_loadText contiguous.data
  have filled : fifth.frameList.starved = false → Tends p m sixth ∧
      ∀ i, sixth.region1 p i = if i < li.tNpg then
          (fifth.region1 p i).map fun page => { page with bytes := request.image (maxPtLen + i) }
        else fifth.region1 p i := fun fed => by
    have before := (stack fed).1
    obtain ⟨tends, views⟩ := before.liveSole.fillPages_tends (alive before) (loaded before)
      (by omega) readText
    refine ⟨before.trans member tends, fun i => (views i).trans (if_congr ?_ rfl rfl)⟩
    omega
  split at done
  · cases done
    exact fun fed => ⟨(filled (fed_of_fillPages readText fed)).1, Or.inl rfl⟩
  obtain ⟨seventh, readData, done⟩ := Outcome.bind_eq_ok.mp done
  obtain ⟨eighth, protectedText, done⟩ := Outcome.bind_eq_ok.mp done
  obtain ⟨ninth, zeroed, done⟩ := Outcome.bind_eq_ok.mp done
  obtain ⟨tenth, built, done⟩ := Outcome.bind_eq_ok.mp done
  obtain ⟨last, freedBuffer, done⟩ := Outcome.bind_eq_ok.mp done
  cases done
  intro fed
  have fed := fed_of_fillPages zeroed (fed_of_fillPages built
    ((CallsFrames.steadyHeap.free freedBuffer).fed fed))
  have fed := fed_of_fillPages readText (fed_of_fillPages readData
    ((CallsFrames.steady.protectText protectedText).fed fed))
  have mapped := (stack fed).2
  obtain ⟨works, textViews⟩ := filled fed
  obtain ⟨tends, dataViews⟩ := works.liveSole.fillPages_tends (alive works) (loaded works)
    (by omega) readData
  have works := works.trans member tends
  rw [own works, contiguous.text] at protectedText
  obtain ⟨tends, protectViews⟩ := works.liveSole.protectText_tends (alive works) protectedText
  have works := works.trans member tends
  obtain ⟨tends, zeroViews⟩ := works.liveSole.fillPages_tends (alive works) (loaded works)
    (by omega) zeroed
  have works := works.trans member tends
  obtain ⟨tends, builtViews⟩ := works.liveSole.fillPages_tends (alive works) (loaded works)
    (by omega) built
  have works := works.trans member tends
  have brk : (tenth.pcbs p).brk = vmem1Base + (li.idNpg + li.udNpg + li.tNpg) * pageSize := by
    have leaves {l k : KernelMemory} (same : LeavesSites l k) : (k.pcbs p).brk = (l.pcbs p).brk :=
      same.brk p (Set.notMem_empty p)
    have writes {l k : KernelMemory} {table : Addr} {low high : Int}
        (same : Writes table low high l k) : (k.pcbs p).brk = (l.pcbs p).brk := by
      obtain ⟨_, _, rfl⟩ := same.rest
      rfl
    rw [leaves (.fillPages built), leaves (.fillPages zeroed), writes (.protectText protectedText),
      leaves (.fillPages readData), leaves (.fillPages readText), writes (.mapPages mappedStack)]
    simp only [KernelMemory.updatePcb, Function.update_self]
  have ends := Tends.free works.liveSole (alive works) (works.quiet quiet) freedBuffer
  obtain ⟨library, rfl⟩ := free_eq_ok (works.quiet quiet) freedBuffer
  refine ⟨works.trans member ends, Or.inr ⟨rfl, ?_, ?_⟩⟩
  · rw [vmem1Base, ← Nat.add_mul] at brk
    exact brk
  · funext i
    refine imagePage_of_phases room (mapped i) (textViews i) ((dataViews i).trans ?_)
      (protectViews i) ((zeroViews i).trans ?_) ((builtViews i).trans ?_)
    · exact if_congr (by omega) rfl rfl
    · exact if_congr (by omega) rfl rfl
    · exact if_congr (by unfold OnStack; omega) rfl rfl

/-- `LoadProgram` refuses the program, ends the process or loads the image. -/
theorem Sole.loadProgram_tends {request : ImageRequest} {code : Int} (sole : m.LiveSole)
    (quiet : m.Quiet) (member : p ∈ m.live) (register : m.regPtbr1 = (m.pcbs p).r1PageTable)
    (contiguous : ContiguousFile request) (done : m.loadProgram request p = .ok (code, n))
    (fed : n.frameList.starved = false) :
    Tends p m n ∧ (code = errorCode ∧ n = m ∨ code = killCode ∨ code = successCode ∧
      ∃ li, request.file = some li ∧
        (n.pcbs p).brk = (maxPtLen + (li.idNpg + li.udNpg + li.tNpg)) * pageSize ∧
        n.region1 p = imagePage li request) := by
  unfold KernelMemory.loadProgram at done
  split at done
  · cases done
    exact ⟨.refl sole, Or.inl ⟨rfl, rfl⟩⟩
  rename_i li file
  split at done
  · cases done
    exact ⟨.refl sole, Or.inl ⟨rfl, rfl⟩⟩
  split at done
  · cases done
    exact ⟨.refl sole, Or.inl ⟨rfl, rfl⟩⟩
  rename_i room
  obtain ⟨tends, kill | ⟨success, brk, image⟩⟩ := sole.loadImage_tends quiet member register
    (contiguous li file) (by omega) done fed
  · exact ⟨tends, Or.inr (Or.inl kill)⟩
  · exact ⟨tends, Or.inr (Or.inr ⟨success, li, file, brk, image⟩)⟩

/-- Different slots of a live process hold different frames. -/
theorem Sole.stackPfns_injective (sole : m.LiveSole) (member : p ∈ m.live) :
    Function.Injective (m.pcbs p).stackPfns := fun i j same => by
  have alone := sole.exclusive.alone (.slot p i) member (.slot p j) member
    ((m.pcbs p).stackPfns i) rfl (congrArg some same.symm)
  cases alone
  rfl

/-- The starter stack goes into the frames of the running process. -/
theorem Sole.execTo_starts {kctxt : KernelContext} (sole : m.LiveSole)
    (member : m.currPCB ∈ m.live) (settled : Settled m) (done : m.execTo = .ok (kctxt, n)) :
    Serves m n ∧ n.mode = m.mode ∧ n.privateProcess m.currPCB =
      ⟨(m.pcbs m.currPCB).brk, m.region1 m.currPCB, m.starterKernelStack, some m.starterKctxt⟩ := by
  have leaves := LeavesSites.execTo done
  obtain ⟨pages, rfl, -, starter, others⟩ :=
    execTo_eq_ok settled.mapped (sole.stackPfns_injective member) done
  have kept : ∀ a ∈ m.liveSites, (∀ i, a ≠ .slot m.currPCB i) → ∀ pfn,
      m.references a = some pfn → pages pfn = m.pages pfn := by
    refine fun a inside other pfn held => others pfn fun i same => other i ?_
    exact sole.exclusive.alone a inside (.slot m.currPCB i) member pfn held (congrArg some same)
  have region1 := region1_of_spares leaves.toSpares (Set.notMem_empty m.currPCB)
    (Set.notMem_empty _) (sole.kernel _ member) fun i =>
      kept (.page _ i) member fun _ => by simp
  refine ⟨⟨rfl, rfl, rfl, rfl, ⟨settled.room, settled.brk, fun i => ?_⟩, fun q alive other => ?_⟩,
    rfl, ?_⟩
  · refine (settled.mapped i).trans ?_
    rw [KernelMemory.curr, KernelMemory.curr]
    exact congrArg (fun pfns => some (Pte.mk true protReadWrite (pfns i)))
      (setKctxt_stackPfns m m.currPCB m.currPCB _).symm
  · refine privateProcess_congr leaves.toSpares (Set.notMem_empty q) (Set.notMem_empty _)
      (sole.kernel q alive) ((setKctxt_kctxt m m.currPCB q _).trans (if_neg other))
      (fun i => kept (.page q i) alive fun _ => by simp)
      fun i => kept (.slot q i) alive (fun j same => ?_) _ rfl
    cases same
    exact other rfl
  · rw [privateProcess, region1, leaves.brk _ (Set.notMem_empty _),
      leaves.stackPfns _ (Set.notMem_empty _)]
    exact congr (congrArg (PrivateProcess.mk _ _) (funext starter))
      ((setKctxt_kctxt m m.currPCB m.currPCB _).trans (if_pos rfl))

/-- `KernelExec` serves the running process. -/
theorem Sole.kernelExec_serves {request : ImageRequest} (sole : m.LiveSole) (quiet : m.Quiet)
    (kernel : m.mode = .kernel) (member : m.currPCB ∈ m.live) (settled : Settled m)
    (register : m.regPtbr1 = (m.pcbs m.currPCB).r1PageTable) (contiguous : ContiguousFile request)
    (done : m.kernelExec request = .ok n) (fed : n.frameList.starved = false) :
    Serves m n ∧ (m.privateProcess m.currPCB).Executes m.privateMemory request
      (n.privateProcess m.currPCB) n.mode := by
  unfold KernelMemory.kernelExec at done
  split at done
  · cases done
    rw [kernel]
    exact ⟨(Tends.refl sole).serves member settled, .refuses⟩
  obtain ⟨⟨status, k⟩, load, done⟩ := Outcome.bind_eq_ok.mp done
  dsimp only at done
  split at done
  · cases done
    obtain ⟨tends, -⟩ := sole.loadProgram_tends quiet member register contiguous load fed
    have serves := tends.serves member settled
    refine ⟨⟨serves.live, serves.currPCB, serves.starterKctxt, serves.starterKernelStack,
      ⟨serves.settled.room, serves.settled.brk, serves.settled.mapped⟩, serves.others⟩, ?_⟩
    have view : ({ k with mode := .exiting }.privateProcess m.currPCB) = _ :=
      tends.privateProcess member
    rw [view]
    exact .ends _ _
  rename_i goesOn
  split at done
  · rename_i refused
    cases done
    obtain ⟨tends, outcome⟩ := sole.loadProgram_tends quiet member register contiguous load fed
    rcases outcome with ⟨-, rfl⟩ | kill | ⟨success, -⟩
    · rw [kernel]
      exact ⟨tends.serves member settled, .refuses⟩
    · exact absurd kill goesOn
    · rw [success] at refused
      exact absurd refused (by decide)
  rename_i accepted
  obtain ⟨⟨kctxt, l⟩, started, done⟩ := Outcome.bind_eq_ok.mp done
  cases done
  have fed : k.frameList.starved = false := (LeavesSites.execTo started).frameList ▸ fed
  obtain ⟨tends, outcome⟩ := sole.loadProgram_tends quiet member register contiguous load fed
  rcases outcome with ⟨refused, -⟩ | kill | ⟨-, li, file, brk, image⟩
  · exact absurd refused accepted
  · exact absurd kill goesOn
  · have first := tends.serves member settled
    have same : k.currPCB = m.currPCB := tends.stays.currPCB
    have alive : k.currPCB ∈ k.live := by
      rw [same, tends.stays.live]
      exact member
    obtain ⟨second, mode, view⟩ := tends.liveSole.execTo_starts alive first.settled started
    rw [same, brk, image, first.starterKctxt, first.starterKernelStack] at view
    rw [view, mode, tends.stays.mode, kernel]
    exact ⟨first.trans second, .loads file⟩

end KernelMemory

end

end Yallnix
