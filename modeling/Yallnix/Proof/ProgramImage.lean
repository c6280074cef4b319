import Yallnix.Proof.ImageLayout

namespace Yallnix

section
variable [Hardware]

/-- The file describes page-aligned segments in region 1 with the text below the data. -/
structure LoadInfo.Describes (li : LoadInfo) : Prop where
  textAligned : pageSize ∣ li.tVaddr
  dataAligned : pageSize ∣ li.idVaddr
  region : vmem1Base ≤ li.tVaddr
  apart : li.tVaddr + li.tNpg * pageSize ≤ li.idVaddr
  inside : li.idVaddr + (li.idNpg + li.udNpg) * pageSize ≤ vmem1Limit

/-- The address of a page of region 1. -/
def pageAddr (i : Nat) : Nat := vmem1Base + i * pageSize

def LoadInfo.isText (li : LoadInfo) (i : Nat) : Prop :=
  li.tVaddr ≤ pageAddr i ∧ pageAddr i < li.tVaddr + li.tNpg * pageSize

def LoadInfo.isData (li : LoadInfo) (i : Nat) : Prop :=
  li.idVaddr ≤ pageAddr i ∧ pageAddr i < li.idVaddr + (li.idNpg + li.udNpg) * pageSize

/-- The page holds the stack pointer or addresses above it. -/
def coversStack (sp : Int) (i : Nat) : Prop := i < maxPtLen ∧ sp < pageAddr (i + 1)

/-- The image has exactly its pages, each on its own used frame, and the break ends the data. -/
structure RightImage (li : LoadInfo) (proc : PCB) (frames : FrameList) (next : PCB)
    (after : FrameList) : Prop where
  valid : ∀ i : Nat, next.r1PageTable.maps i = true ↔
    li.isText i ∨ li.isData i ∨ coversStack next.uctxt.sp i
  text : ∀ (i : Nat) (pte : Pte), li.isText i → next.r1PageTable[i]? = some pte → pte.prot = protReadExec
  writable : ∀ (i : Nat) (pte : Pte), li.isData i ∨ coversStack next.uctxt.sp i →
    next.r1PageTable[i]? = some pte → pte.prot = protReadWrite
  distinct : ∀ (i j : Nat) (one two : Pte), next.r1PageTable[i]? = some one →
    next.r1PageTable[j]? = some two → one.valid = true → two.valid = true → one.pfn = two.pfn → i = j
  used : ∀ (i : Nat) (pte : Pte), next.r1PageTable[i]? = some pte → pte.valid = true →
    after.Marks pte.pfn false
  freed : ∀ pte ∈ proc.r1PageTable, pte.valid = true → pte.pfn ∈ frames.numbers →
    pte.pfn ∈ after.freeNumbers ∨
      ∃ new ∈ next.r1PageTable, new.valid = true ∧ new.pfn = pte.pfn
  brk : 0 < li.idNpg + li.udNpg → next.brk = li.idVaddr + (li.idNpg + li.udNpg) * pageSize

/-- After the old image is free, the array has a frame for each page of the new one. -/
def EnoughFrames (li : LoadInfo) (request : ExecRequest) (proc : PCB) (frames : FrameList) :
    Prop :=
  li.tNpg + (li.idNpg + li.udNpg) + (loadStackPages request.argLengths).toNat ≤
    (freedFrames proc frames).freeNumbers.length

/-- The loops start at these pages, and their ranges come in this order. -/
structure Layout (li : LoadInfo) (argLengths : List Nat) (text data stack : Nat) : Prop where
  textStart : loadText li = text
  dataStart : loadData li = data
  stackStart : (maxPtLen : Int) - loadStackPages argLengths = stack
  textAddr : li.tVaddr = pageAddr text
  dataAddr : li.idVaddr = pageAddr data
  apart : text + li.tNpg ≤ data
  room : data + (li.idNpg + li.udNpg) < stack
  top : stack ≤ maxPtLen

theorem pageAddr_page (page : Nat) : ((pageAddr page : Nat) - (vmem1Base : Nat) : Int) / pageSize = page := by
  have size := pageSize_pos
  rw [pageAddr]
  push_cast
  rw [add_sub_cancel_left]
  exact Int.mul_ediv_cancel _ (by omega)

theorem exists_pageAddr {addr : Nat} (aligned : pageSize ∣ addr) (region : vmem1Base ≤ addr) :
    ∃ page, addr = pageAddr page := by
  obtain ⟨vpn, rfl⟩ := aligned
  rw [vmem1Base, Nat.mul_comm pageSize] at region
  have above := Nat.le_of_mul_le_mul_right region pageSize_pos
  refine ⟨vpn - maxPtLen, ?_⟩
  rw [pageAddr, vmem1Base, ← Nat.add_mul, Nat.add_sub_cancel' above, Nat.mul_comm]

theorem pageAddr_add (page count : Nat) : pageAddr page + count * pageSize = pageAddr (page + count) := by
  rw [pageAddr, pageAddr, Nat.add_mul, Nat.add_assoc]

theorem pageAddr_le {one two : Nat} : pageAddr one ≤ pageAddr two ↔ one ≤ two := by
  rw [pageAddr, pageAddr, Nat.add_le_add_iff_left, Nat.mul_le_mul_right_iff pageSize_pos]

theorem pageAddr_lt {one two : Nat} : pageAddr one < pageAddr two ↔ one < two := by
  rw [← not_le, ← not_le, pageAddr_le]

theorem vmem1Limit_eq : vmem1Limit = pageAddr maxPtLen := by
  rw [vmem1Limit, pageAddr, vmem1Base, ← Nat.add_mul, Nat.two_mul]

theorem LoadInfo.Describes.layout {li : LoadInfo} (describes : li.Describes)
    {argLengths : List Nat}
    (room : loadStackPages argLengths + loadData li + (li.idNpg + li.udNpg) < maxPtLen) :
    ∃ text data stack, Layout li argLengths text data stack := by
  have pages := loadStackPages_nonneg argLengths
  have apart := describes.apart
  have behind : vmem1Base ≤ li.idVaddr := by
    have region := describes.region
    omega
  obtain ⟨text, textAddr⟩ := exists_pageAddr describes.textAligned describes.region
  obtain ⟨data, dataAddr⟩ := exists_pageAddr describes.dataAligned behind
  have textPage : loadText li = text := by rw [loadText, textAddr, pageAddr_page]
  have dataPage : loadData li = data := by rw [loadData, dataAddr, pageAddr_page]
  rw [textAddr, dataAddr, pageAddr_add, pageAddr_le] at apart
  rw [dataPage] at room
  refine ⟨text, data, maxPtLen - (loadStackPages argLengths).toNat,
    ⟨textPage, dataPage, by omega, textAddr, dataAddr, apart, by omega, Nat.sub_le _ _⟩⟩

namespace Layout

variable {li : LoadInfo} {argLengths : List Nat} {text data stack : Nat}

theorem isText_iff (layout : Layout li argLengths text data stack) {i : Nat} :
    li.isText i ↔ text ≤ i ∧ i < text + li.tNpg := by
  rw [LoadInfo.isText, layout.textAddr, pageAddr_add, pageAddr_le, pageAddr_lt]

theorem isData_iff (layout : Layout li argLengths text data stack) {i : Nat} :
    li.isData i ↔ data ≤ i ∧ i < data + (li.idNpg + li.udNpg) := by
  rw [LoadInfo.isData, layout.dataAddr, pageAddr_add, pageAddr_le, pageAddr_lt]

/-- The stack pages are the pages from that of the new stack pointer on. -/
theorem coversStack_iff (layout : Layout li argLengths text data stack) {i : Nat} :
    coversStack (loadStackPointer argLengths) i ↔ stack ≤ i ∧ i < maxPtLen := by
  have size := pageSize_pos
  have start := layout.stackStart
  rw [loadStackPages] at start
  have limit : (vmem1Limit : Int) = 2 * maxPtLen * pageSize := by
    rw [vmem1Limit]
    push_cast
    rfl
  rw [limit, ← sub_mul, Int.mul_ediv_cancel _ (by omega)] at start
  have page : (pageAddr (i + 1) : Int) = (maxPtLen + i + 1) * pageSize := by
    rw [pageAddr, vmem1Base]
    push_cast
    rw [← add_mul, add_assoc]
  rw [coversStack, page, ← Int.ediv_lt_iff_lt_mul (by omega)]
  omega

/-- The loops take their frames in this order. -/
def slot (li : LoadInfo) (text data stack i : Nat) : Nat :=
  if i < data then i - text
  else if i < stack then li.tNpg + (i - data)
  else li.tNpg + (li.idNpg + li.udNpg) + (i - stack)

/-- The loops map this page. -/
def Inside (li : LoadInfo) (text data stack i : Nat) : Prop :=
  text ≤ i ∧ i < text + li.tNpg ∨ data ≤ i ∧ i < data + (li.idNpg + li.udNpg) ∨
    stack ≤ i ∧ i < maxPtLen

/-- Two pages have two places in the order. -/
theorem slot_inj (layout : Layout li argLengths text data stack) {i j : Nat}
    (one : Inside li text data stack i) (two : Inside li text data stack j)
    (same : slot li text data stack i = slot li text data stack j) : i = j := by
  have apart := layout.apart
  have room := layout.room
  unfold Inside at one two
  unfold slot at same
  split_ifs at same <;> omega

/-- Each place in the order belongs to a page. -/
theorem exists_slot (layout : Layout li argLengths text data stack) {k : Nat}
    (below : k < li.tNpg + (li.idNpg + li.udNpg) + (maxPtLen - stack)) :
    ∃ i, Inside li text data stack i ∧ slot li text data stack i = k := by
  have apart := layout.apart
  have room := layout.room
  have top := layout.top
  by_cases inText : k < li.tNpg
  · refine ⟨text + k, by unfold Inside; omega, ?_⟩
    rw [slot, if_pos (by omega)]
    omega
  by_cases inData : k < li.tNpg + (li.idNpg + li.udNpg)
  · refine ⟨data + (k - li.tNpg), by unfold Inside; omega, ?_⟩
    rw [slot, if_neg (by omega), if_pos (by omega)]
    omega
  · refine ⟨stack + (k - (li.tNpg + (li.idNpg + li.udNpg))), by unfold Inside; omega, ?_⟩
    rw [slot, if_neg (by omega), if_neg (by omega)]
    omega

/-- With enough frames each page of the image is mapped to the frame at its place, and no other
page is mapped. -/
theorem mapped (layout : Layout li argLengths text data stack) {free : List Nat}
    {table next : PageTable} (length : table.length = maxPtLen)
    (none : ∀ i, table.maps i = false)
    (enough : li.tNpg + (li.idNpg + li.udNpg) + (maxPtLen - stack) ≤ free.length)
    (image : MapsImage text data stack (free.take li.tNpg)
      ((free.drop li.tNpg).take (li.idNpg + li.udNpg))
      (((free.drop li.tNpg).drop (li.idNpg + li.udNpg)).take (maxPtLen - stack)) table next) :
    next.length = maxPtLen ∧
      (∀ i, Inside li text data stack i → ∃ pfn, free[slot li text data stack i]? = some pfn ∧
        next[i]? = some ⟨true, protReadWrite, pfn⟩) ∧
      ∀ i, ¬Inside li text data stack i → next.maps i = false := by
  have apart := layout.apart
  have room := layout.room
  have top := layout.top
  obtain ⟨first, second, textMaps, dataMaps, stackMaps⟩ := image
  have textCount : (free.take li.tNpg).length = li.tNpg := by
    rw [List.length_take]
    omega
  have dataCount : ((free.drop li.tNpg).take (li.idNpg + li.udNpg)).length =
      li.idNpg + li.udNpg := by
    rw [List.length_take, List.length_drop]
    omega
  have stackCount : (((free.drop li.tNpg).drop (li.idNpg + li.udNpg)).take
      (maxPtLen - stack)).length = maxPtLen - stack := by
    rw [List.length_take, List.length_drop, List.length_drop]
    omega
  have textOut := textMaps.outside
  have dataOut := dataMaps.outside
  have stackOut := stackMaps.outside
  rw [textCount] at textOut
  rw [dataCount] at dataOut
  rw [stackCount] at stackOut
  refine ⟨?_, fun i inside => ?_, fun i outside => ?_⟩
  · rw [stackMaps.length, dataMaps.length, textMaps.length, length]
  · have found : slot li text data stack i < free.length := by
      unfold Inside at inside
      unfold slot
      split_ifs <;> omega
    refine ⟨_, List.getElem?_eq_getElem found, ?_⟩
    have listed := List.getElem?_eq_getElem found
    generalize free[slot li text data stack i] = pfn at listed ⊢
    rcases inside with inText | inData | inStack
    · rw [slot, if_pos (by omega)] at listed
      rw [stackOut i (by omega), dataOut i (by omega)]
      refine textMaps.mapped i (i - text) pfn (by omega) ?_
      rw [List.getElem?_take_of_lt (by omega)]
      exact listed
    · rw [slot, if_neg (by omega), if_pos (by omega)] at listed
      rw [stackOut i (by omega)]
      refine dataMaps.mapped i (i - data) pfn (by omega) ?_
      rw [List.getElem?_take_of_lt (by omega), List.getElem?_drop]
      exact listed
    · rw [slot, if_neg (by omega), if_neg (by omega)] at listed
      refine stackMaps.mapped i (i - stack) pfn (by omega) ?_
      rw [List.getElem?_take_of_lt (by omega), List.getElem?_drop, List.getElem?_drop,
        ← Nat.add_assoc]
      exact listed
  · unfold Inside at outside
    rw [PageTable.maps, stackOut i (by omega), dataOut i (by omega), textOut i (by omega)]
    exact none i

end Layout

omit [Hardware] in
/-- The last loop changes the protection of the text pages and nothing else. -/
theorem protectText_eq_ok {count low : Nat} {index : Int} {table next : PageTable}
    (start : index = low) (done : protectText count index table = .ok next) (i : Nat) :
    next[i]? = if low ≤ i ∧ i < low + count then
      table[i]?.map fun pte => { pte with prot := protReadExec } else table[i]? := by
  induction count generalizing low index table with
  | zero =>
      cases done
      rw [if_neg (by omega)]
  | succ count ih =>
      subst start
      obtain ⟨pte, read, done⟩ := Outcome.bind_eq_ok.mp done
      obtain ⟨middle, wrote, done⟩ := Outcome.bind_eq_ok.mp done
      obtain ⟨-, inside, rfl⟩ := setPageTableEntry_eq_ok.mp wrote
      obtain ⟨-, found⟩ := readEntry_eq_ok.mp read
      rw [Int.toNat_natCast] at found done
      rw [ih (by push_cast; rfl : (low : Int) + 1 = (low + 1 : Nat)) done]
      by_cases here : i = low
      · subst here
        rw [if_neg (by omega), if_pos (by omega), List.getElem?_set_self (by omega), found]
        rfl
      · rw [List.getElem?_set_ne (Ne.symm here)]
        by_cases later : low + 1 ≤ i ∧ i < low + 1 + count
        · rw [if_pos later, if_pos (by omega)]
        · rw [if_neg later, if_neg (by omega)]

theorem freedFrames_numbers (proc : PCB) (frames : FrameList) :
    (freedFrames proc frames).numbers = frames.numbers := by
  rw [freedFrames, freeValidFrames_eq, foldl_freeFrame_numbers]

/-- The frames of the old image are free before the loops begin. -/
theorem mem_freedFrames {proc : PCB} {frames : FrameList} {pfn : Nat} :
    pfn ∈ (freedFrames proc frames).freeNumbers ↔ pfn ∈ frames.freeNumbers ∨
      (∃ pte ∈ proc.r1PageTable, pte.valid = true ∧ pte.pfn = pfn) ∧ pfn ∈ frames.numbers := by
  rw [freedFrames, freeValidFrames_eq, mem_foldl_freeFrame, mem_validFrames]

/-- With enough frames a load takes the free frames in order. -/
theorem imageFrames_eq {li : LoadInfo} {request : ExecRequest} {proc : PCB} {frames : FrameList}
    (enough : EnoughFrames li request proc frames) :
    (textFrames li proc frames).1 = (freedFrames proc frames).freeNumbers.take li.tNpg ∧
      (dataFrames li proc frames).1 =
        ((freedFrames proc frames).freeNumbers.drop li.tNpg).take (li.idNpg + li.udNpg) ∧
      (stackFrames li request proc frames).1 =
        (((freedFrames proc frames).freeNumbers.drop li.tNpg).drop (li.idNpg + li.udNpg)).take
          (loadStackPages request.argLengths).toNat ∧
      (stackFrames li request proc frames).2.freeNumbers =
        (freedFrames proc frames).freeNumbers.drop
          (li.tNpg + (li.idNpg + li.udNpg) + (loadStackPages request.argLengths).toNat) := by
  have textFree := (takeFrames_free li.tNpg (freedFrames proc frames)).2
  have dataFree := (takeFrames_free (li.idNpg + li.udNpg) (textFrames li proc frames).2).2
  have stackFree := (takeFrames_free (loadStackPages request.argLengths).toNat
    (dataFrames li proc frames).2).2
  change (textFrames li proc frames).2.freeNumbers = _ at textFree
  change (dataFrames li proc frames).2.freeNumbers = _ at dataFree
  change (stackFrames li request proc frames).2.freeNumbers = _ at stackFree
  unfold EnoughFrames at enough
  rw [textFree] at dataFree
  rw [dataFree] at stackFree
  refine ⟨takeFrames_enough (by omega), ?_, ?_, ?_⟩
  · rw [← textFree]
    refine takeFrames_enough ?_
    rw [textFree, List.length_drop]
    omega
  · rw [← dataFree]
    refine takeFrames_enough ?_
    rw [dataFree, List.length_drop, List.length_drop]
    omega
  · rw [stackFree, List.drop_drop, List.drop_drop, Nat.add_assoc li.tNpg]

/-- The pages of the image lie on the free frames in order, and no other page is mapped. -/
structure Layout.Places (li : LoadInfo) (text data stack : Nat) (free : List Nat)
    (table : PageTable) : Prop where
  entry : ∀ i : Nat, Layout.Inside li text data stack i →
    ∃ pfn, free[Layout.slot li text data stack i]? = some pfn ∧
      table[i]? = some ⟨true, if text ≤ i ∧ i < text + li.tNpg then protReadExec
        else protReadWrite, pfn⟩
  gap : ∀ i : Nat, ¬Layout.Inside li text data stack i → table.maps i = false

namespace Layout.Places

variable {li : LoadInfo} {text data stack : Nat} {free : List Nat} {table : PageTable}

theorem found (places : Places li text data stack free table) {i : Nat} {pte : Pte}
    (listed : table[i]? = some pte) (valid : pte.valid = true) :
    Inside li text data stack i ∧ free[slot li text data stack i]? = some pte.pfn := by
  have inside : Inside li text data stack i := by
    by_contra outside
    have gap := places.gap i outside
    rw [PageTable.maps, listed, Option.any_some, valid] at gap
    cases gap
  obtain ⟨pfn, place, entry⟩ := places.entry i inside
  cases listed.symm.trans entry
  exact ⟨inside, place⟩

theorem maps_iff (places : Places li text data stack free table) {i : Nat} :
    table.maps i = true ↔ Inside li text data stack i := by
  constructor
  · intro maps
    by_contra outside
    rw [places.gap i outside] at maps
    cases maps
  · intro inside
    obtain ⟨pfn, -, entry⟩ := places.entry i inside
    rw [PageTable.maps, entry]
    rfl

end Layout.Places

/-- A successful load with enough frames places the image on the free frames in order. -/
theorem loadProgram_places {li : LoadInfo} {request : ExecRequest} {proc next : PCB}
    {frames after : FrameList} (file : request.file = some li) (describes : li.Describes)
    (length : proc.r1PageTable.length = maxPtLen) (enough : EnoughFrames li request proc frames)
    (done : loadProgram request proc frames = .ok (successCode, next, after)) :
    ∃ text data stack, Layout li request.argLengths text data stack ∧
      Layout.Places li text data stack (freedFrames proc frames).freeNumbers next.r1PageTable ∧
      next.uctxt.sp = loadStackPointer request.argLengths ∧
      next.brk = vmem1Base + (li.idNpg + li.udNpg + li.tNpg) * pageSize ∧
      after.numbers = frames.numbers ∧
      after.freeNumbers = (freedFrames proc frames).freeNumbers.drop
        (li.tNpg + (li.idNpg + li.udNpg) + (maxPtLen - stack)) ∧
      li.tNpg + (li.idNpg + li.udNpg) + (maxPtLen - stack) ≤
        (freedFrames proc frames).freeNumbers.length := by
  rw [loadProgram, file] at done
  dsimp only at done
  split at done
  · cases done
  split at done
  · cases done
  rename_i room
  have buffer : request.argbuf = true := by
    by_contra missing
    rw [Bool.not_eq_true] at missing
    unfold loadImage at done
    rw [missing] at done
    cases done
  obtain ⟨numbers, free, -, table, image, outcome⟩ := loadImage_loads buffer done
  rcases outcome with ⟨failed, -⟩ | ⟨-, -, protects, brk, pointer, -⟩
  · cases failed
  obtain ⟨text, data, stack, layout⟩ := describes.layout (not_le.mp room)
  have start := layout.stackStart
  have top := layout.top
  have pages : (loadStackPages request.argLengths).toNat = maxPtLen - stack := by omega
  obtain ⟨textPfns, dataPfns, stackPfns, left⟩ := imageFrames_eq enough
  unfold EnoughFrames at enough
  rw [pages] at stackPfns left enough
  rw [layout.textStart, layout.dataStart, start, textPfns, dataPfns, stackPfns] at image
  have emptied : (freeValidPages proc.r1PageTable frames).1.length = maxPtLen := by
    rw [freeValidPages, List.length_map, length]
  obtain ⟨-, entries, gaps⟩ :=
    layout.mapped emptied (freeValidPages_maps proc.r1PageTable frames) enough image
  refine ⟨text, data, stack, layout, ⟨fun i inside => ?_, fun i outside => ?_⟩, pointer, brk, numbers,
    free.trans left, enough⟩
  · obtain ⟨pfn, place, entry⟩ := entries i inside
    refine ⟨pfn, place, ?_⟩
    rw [protectText_eq_ok layout.textStart protects, entry]
    split_ifs <;> rfl
  · rw [PageTable.maps, protectText_eq_ok layout.textStart protects, if_neg]
    · exact gaps i outside
    · exact fun inText => outside (.inl inText)

/-- A successful load builds the right image exactly when the data begins as many pages behind the
start of the region as the text has. -/
theorem loadProgram_rightImage {li : LoadInfo} {request : ExecRequest} {proc next : PCB}
    {frames after : FrameList} (file : request.file = some li) (describes : li.Describes)
    (length : proc.r1PageTable.length = maxPtLen) (distinct : frames.numbers.Nodup)
    (enough : EnoughFrames li request proc frames)
    (done : loadProgram request proc frames = .ok (successCode, next, after)) :
    RightImage li proc frames next after ↔
      (0 < li.idNpg + li.udNpg → li.idVaddr = vmem1Base + li.tNpg * pageSize) := by
  obtain ⟨text, data, stack, layout, places, pointer, brk, numbers, left, taken⟩ :=
    loadProgram_places file describes length enough done
  have inside_iff : ∀ i, Layout.Inside li text data stack i ↔
      li.isText i ∨ li.isData i ∨ coversStack next.uctxt.sp i := by
    intro i
    rw [layout.isText_iff, layout.isData_iff, pointer, layout.coversStack_iff]
    rfl
  have freeDistinct : (freedFrames proc frames).freeNumbers.Nodup := by
    rw [← freedFrames_numbers proc] at distinct
    exact distinct.sublist (FrameList.freeNumbers_sublist _)
  have apart := layout.apart
  have room := layout.room
  have top := layout.top
  have endsData : next.brk = li.idVaddr + (li.idNpg + li.udNpg) * pageSize ↔
      li.idVaddr = vmem1Base + li.tNpg * pageSize := by
    rw [brk, Nat.add_mul]
    omega
  constructor
  · exact fun right data => endsData.mp (right.brk data)
  intro follows
  refine ⟨fun i => ?_, fun i pte inText listed => ?_, fun i pte writable listed => ?_,
    fun i j one two listedOne listedTwo validOne validTwo same => ?_,
    fun i pte listed valid => ?_, fun pte listed valid known => ?_,
    fun data => endsData.mpr (follows data)⟩
  · rw [← inside_iff i, places.maps_iff]
  · obtain ⟨pfn, -, entry⟩ := places.entry i ((inside_iff i).mpr (.inl inText))
    rw [layout.isText_iff] at inText
    rw [if_pos inText] at entry
    cases listed.symm.trans entry
    rfl
  · obtain ⟨pfn, -, entry⟩ := places.entry i ((inside_iff i).mpr (.inr writable))
    rw [layout.isData_iff, pointer, layout.coversStack_iff] at writable
    rw [if_neg (by omega)] at entry
    cases listed.symm.trans entry
    rfl
  · obtain ⟨insideOne, placeOne⟩ := places.found listedOne validOne
    obtain ⟨insideTwo, placeTwo⟩ := places.found listedTwo validTwo
    refine layout.slot_inj insideOne insideTwo ?_
    rw [← same] at placeTwo
    obtain ⟨below, -⟩ := List.getElem?_eq_some_iff.mp placeOne
    exact (List.getElem?_inj below freeDistinct).mp (placeOne.trans placeTwo.symm)
  · obtain ⟨inside, place⟩ := places.found listed valid
    have wasFree := List.mem_of_getElem? place
    refine FrameList.marks_used ?_ fun free => ?_
    · rw [numbers, ← freedFrames_numbers proc]
      exact (FrameList.freeNumbers_sublist _).subset wasFree
    · rw [left] at free
      refine List.disjoint_take_drop freeDistinct (le_refl _) ?_ free
      rw [List.mem_iff_getElem?]
      refine ⟨Layout.slot li text data stack i, ?_⟩
      rw [List.getElem?_take_of_lt]
      · exact place
      · unfold Layout.Inside at inside
        unfold Layout.slot
        split_ifs <;> omega
  · have wasFree : pte.pfn ∈ (freedFrames proc frames).freeNumbers :=
      mem_freedFrames.mpr (.inr ⟨⟨pte, listed, valid, rfl⟩, known⟩)
    obtain ⟨k, place⟩ := List.mem_iff_getElem?.mp wasFree
    by_cases reused : k < li.tNpg + (li.idNpg + li.udNpg) + (maxPtLen - stack)
    · obtain ⟨i, inside, rfl⟩ := layout.exists_slot reused
      obtain ⟨pfn, given, entry⟩ := places.entry i inside
      cases place.symm.trans given
      exact .inr ⟨_, List.mem_of_getElem? entry, rfl, rfl⟩
    · refine .inl ?_
      rw [left, List.mem_iff_getElem?]
      refine ⟨k - (li.tNpg + (li.idNpg + li.udNpg) + (maxPtLen - stack)), ?_⟩
      rw [List.getElem?_drop, Nat.add_sub_cancel' (by omega)]
      exact place

end

section
attribute [local instance] smallHardware

/-- The process has one page of an old image. -/
def smallImagePCB : PCB :=
  { zeroPCB with
    r1PageTable := ⟨true, protReadExec, 7⟩ :: List.replicate 7 ⟨false, protNone, 0⟩ }

def smallImageRequest (li : LoadInfo) : ExecRequest := ⟨true, some li, [], true, true, true⟩

/-- A load of the small image into the small process. -/
def smallExec (li : LoadInfo) : Outcome (Int × PCB × FrameList) :=
  loadProgram (smallImageRequest li) smallImagePCB smallBoot.frameList

/-- The load ends with SUCCESS and leaves this break. -/
def leavesBreak (brk : Nat) : Outcome (Int × PCB × FrameList) → Bool
  | .ok (code, next, _) => decide (code = successCode ∧ next.brk = brk)
  | .error _ => false

theorem leavesBreak_eq_true {brk : Nat} {outcome : Outcome (Int × PCB × FrameList)}
    (left : leavesBreak brk outcome = true) :
    ∃ next after, outcome = .ok (successCode, next, after) ∧ next.brk = brk := by
  rcases outcome with stop | ⟨code, next, after⟩
  · cases left
  · obtain ⟨rfl, brk⟩ := of_decide_eq_true left
    exact ⟨next, after, rfl, brk⟩

theorem smallLoadInfo_describes : smallLoadInfo.Describes :=
  ⟨by decide, by decide, by decide, by decide, by decide⟩

theorem gappedLoadInfo_describes : gappedLoadInfo.Describes :=
  ⟨by decide, by decide, by decide, by decide, by decide⟩

theorem smallImage_enough {li : LoadInfo} (pages : li.tNpg + (li.idNpg + li.udNpg) ≤ 20) :
    EnoughFrames li (smallImageRequest li) smallImagePCB smallBoot.frameList := by
  have free : (freedFrames smallImagePCB smallBoot.frameList).freeNumbers.length = 23 := by
    decide +kernel
  have stack : (loadStackPages []).toNat = 2 := by decide +kernel
  rw [EnoughFrames, free, smallImageRequest, stack]
  omega

/-- The small image is right. -/
theorem loadProgram_rightImage_small :
    ∃ next after, smallExec smallLoadInfo = .ok (successCode, next, after) ∧
      RightImage smallLoadInfo smallImagePCB smallBoot.frameList next after := by
  have loads : leavesBreak 160 (smallExec smallLoadInfo) = true := by decide +kernel
  obtain ⟨next, after, done, -⟩ := leavesBreak_eq_true loads
  refine ⟨next, after, done, (loadProgram_rightImage rfl smallLoadInfo_describes rfl (by decide)
    (smallImage_enough (by decide)) done).mpr fun _ => by decide⟩

/-- The break of the second image lies below the end of its data. -/
theorem rightImage_false :
    gappedLoadInfo.Describes ∧ smallImagePCB.r1PageTable.length = maxPtLen ∧
      smallBoot.frameList.numbers.Nodup ∧
      EnoughFrames gappedLoadInfo (smallImageRequest gappedLoadInfo) smallImagePCB
        smallBoot.frameList ∧
      ∃ next after, smallExec gappedLoadInfo = .ok (successCode, next, after) ∧
        ¬RightImage gappedLoadInfo smallImagePCB smallBoot.frameList next after := by
  have loads : leavesBreak 176 (smallExec gappedLoadInfo) = true := by decide +kernel
  obtain ⟨next, after, done, brk⟩ := leavesBreak_eq_true loads
  refine ⟨gappedLoadInfo_describes, rfl, by decide, smallImage_enough (by decide), next, after, done,
    fun right => ?_⟩
  have wrong := right.brk (by decide)
  rw [brk] at wrong
  exact absurd wrong (by decide)

end

end Yallnix
