import Yallnix.Proof.ImageFrames

namespace Yallnix

/-- The loops of `LoadProgram` map these frames to the text, the data and the stack. -/
def MapsImage (text data stack : Int) (textPfns dataPfns stackPfns : List Nat)
    (table next : PageTable) : Prop :=
  ∃ first second, MapsTo protReadWrite text textPfns table first ∧
    MapsTo protReadWrite data dataPfns first second ∧
    MapsTo protReadWrite stack stackPfns second next

theorem MapsTo.refl (prot : Prot) (index : Int) (table : PageTable) :
    MapsTo prot index [] table table :=
  ⟨rfl, .inl rfl, fun _ _ _ _ found => (by cases found), fun _ _ => rfl⟩

theorem freeNumbers_of_available {list : FrameList} (empty : list.available = 0) :
    list.freeNumbers = [] := by
  rw [FrameList.freeNumbers, filter_of_used, List.map_nil]
  exact fun frame listed => used_of_available empty frame (List.mem_append_left _ listed)

/-- After a shortage no frame is left. -/
theorem takeFrames_short {count : Nat} {list : FrameList}
    (short : (takeFrames count list).1.length ≠ count) :
    (takeFrames count list).2.available = 0 := by
  have length := takeFrames_length count list
  have left := takeFrames_available count list
  omega

/-- A loop without frames takes nothing and changes nothing. -/
theorem takeFrames_empty {list : FrameList} (empty : list.available = 0) (count : Nat) :
    (takeFrames count list).1 = [] ∧ (takeFrames count list).2.available = 0 ∧
      (takeFrames count list).2.freeNumbers = list.freeNumbers := by
  refine ⟨(takeFrames_of_available empty).1, ?_, ?_⟩
  · rw [takeFrames_available, empty, Nat.zero_sub]
  · rw [(takeFrames_free count list).2, freeNumbers_of_available empty, List.drop_nil]

section
variable [Hardware]

/-- The list of frames after the old image is free. -/
def freedFrames (proc : PCB) (frames : FrameList) : FrameList :=
  freeValidFrames proc.r1PageTable frames

/-- The frames that the loop for the text gets, and the list behind it. -/
def textFrames (li : LoadInfo) (proc : PCB) (frames : FrameList) : List Nat × FrameList :=
  takeFrames li.tNpg (freedFrames proc frames)

def dataFrames (li : LoadInfo) (proc : PCB) (frames : FrameList) : List Nat × FrameList :=
  takeFrames (li.idNpg + li.udNpg) (textFrames li proc frames).2

def stackFrames (li : LoadInfo) (request : ExecRequest) (proc : PCB) (frames : FrameList) :
    List Nat × FrameList :=
  takeFrames (loadStackPages request.argLengths).toNat (dataFrames li proc frames).2

/-- All frames are there, and the file holds the text and the data. -/
def ImageComplete (li : LoadInfo) (request : ExecRequest) (proc : PCB) (frames : FrameList) :
    Prop :=
  (textFrames li proc frames).1.length = li.tNpg ∧
    (dataFrames li proc frames).1.length = li.idNpg + li.udNpg ∧
    (stackFrames li request proc frames).1.length = (loadStackPages request.argLengths).toNat ∧
    request.textRead = true ∧ request.dataRead = true

/-- With a buffer for the arguments the load ends in one of two ways. -/
structure LoadsImage (li : LoadInfo) (request : ExecRequest) (proc : PCB) (frames : FrameList)
    (code : Int) (next : PCB) (after : FrameList) : Prop where
  numbers : after.numbers = frames.numbers
  free : after.freeNumbers = (stackFrames li request proc frames).2.freeNumbers
  stackPfns : next.stackPfns = proc.stackPfns
  image : ∃ table, MapsImage (loadText li) (loadData li)
      (maxPtLen - loadStackPages request.argLengths) (textFrames li proc frames).1
      (dataFrames li proc frames).1 (stackFrames li request proc frames).1
      (freeValidPages proc.r1PageTable frames).1 table ∧
    ((code = killCode ∧ ¬ImageComplete li request proc frames ∧ next.r1PageTable = table) ∨
      code = successCode ∧ ImageComplete li request proc frames ∧
        protectText li.tNpg (loadText li) table = .ok next.r1PageTable ∧
        next.brk = vmem1Base + (li.idNpg + li.udNpg + li.tNpg) * pageSize ∧
        next.uctxt.sp = loadStackPointer request.argLengths ∧ next.uctxt.pc = li.entry)

theorem loadImage_loads {li : LoadInfo} {request : ExecRequest} {proc next : PCB}
    {frames after : FrameList} {code : Int} (buffer : request.argbuf = true)
    (done : loadImage li request proc frames = .ok (code, next, after)) :
    LoadsImage li request proc frames code next after := by
  unfold loadImage at done
  simp only [buffer, Bool.not_true, Bool.false_eq_true, if_false] at done
  obtain ⟨⟨mapped, table, list⟩, text, done⟩ := Outcome.bind_eq_ok.mp done
  dsimp only at done
  obtain ⟨textAll, rfl, textMaps⟩ := mapPages_eq_ok text
  have numbers : (textFrames li proc frames).2.numbers = frames.numbers := by
    rw [textFrames, (takeFrames_free _ _).1, freedFrames, freeValidFrames_eq,
      foldl_freeFrame_numbers]
  have dataNumbers := (takeFrames_free (li.idNpg + li.udNpg) (textFrames li proc frames).2).1
  have stackNumbers := (takeFrames_free (loadStackPages request.argLengths).toNat
    (dataFrames li proc frames).2).1
  split at done
  · rename_i failed
    rw [Bool.not_eq_true'] at failed
    have short : (textFrames li proc frames).1.length ≠ li.tNpg :=
      mt textAll.mpr (by rw [failed]; exact Bool.false_ne_true)
    obtain ⟨noData, left, same⟩ := takeFrames_empty (takeFrames_short short) (li.idNpg + li.udNpg)
    obtain ⟨noStack, -, still⟩ :=
      takeFrames_empty left (loadStackPages request.argLengths).toNat
    cases done
    refine ⟨numbers, (still.trans same).symm, rfl, table, ⟨table, table, textMaps, ?_, ?_⟩,
      .inl ⟨rfl, fun complete => short complete.1, rfl⟩⟩
    · exact noData ▸ .refl _ _ table
    · exact noStack ▸ .refl _ _ table
  rename_i textMapped
  rw [Bool.not_eq_true, Bool.not_eq_false'] at textMapped
  obtain ⟨⟨mapped, second, list⟩, data, done⟩ := Outcome.bind_eq_ok.mp done
  dsimp only at done
  obtain ⟨dataAll, rfl, dataMaps⟩ := mapPages_eq_ok data
  split at done
  · rename_i failed
    rw [Bool.not_eq_true'] at failed
    have short : (dataFrames li proc frames).1.length ≠ li.idNpg + li.udNpg :=
      mt dataAll.mpr (by rw [failed]; exact Bool.false_ne_true)
    obtain ⟨noStack, -, still⟩ := takeFrames_empty (takeFrames_short short)
      (loadStackPages request.argLengths).toNat
    cases done
    refine ⟨dataNumbers.trans numbers, still.symm, rfl, second, ⟨table, second, textMaps, dataMaps, ?_⟩,
      .inl ⟨rfl, fun complete => short complete.2.1, rfl⟩⟩
    exact noStack ▸ .refl _ _ second
  rename_i dataMapped
  rw [Bool.not_eq_true, Bool.not_eq_false'] at dataMapped
  obtain ⟨⟨mapped, third, list⟩, stack, done⟩ := Outcome.bind_eq_ok.mp done
  dsimp only at done
  obtain ⟨stackAll, rfl, stackMaps⟩ := mapPages_eq_ok stack
  have image : MapsImage (loadText li) (loadData li)
      (maxPtLen - loadStackPages request.argLengths) (textFrames li proc frames).1
      (dataFrames li proc frames).1 (stackFrames li request proc frames).1
      (freeValidPages proc.r1PageTable frames).1 third :=
    ⟨table, second, textMaps, dataMaps, stackMaps⟩
  split at done
  · rename_i failed
    rw [Bool.not_eq_true'] at failed
    have short : (stackFrames li request proc frames).1.length ≠
        (loadStackPages request.argLengths).toNat :=
      mt stackAll.mpr (by rw [failed]; exact Bool.false_ne_true)
    cases done
    exact ⟨stackNumbers.trans (dataNumbers.trans numbers), rfl, rfl, third, image,
      .inl ⟨rfl, fun complete => short complete.2.2.1, rfl⟩⟩
  rename_i stackMapped
  rw [Bool.not_eq_true, Bool.not_eq_false'] at stackMapped
  split at done
  · rename_i unread
    cases done
    refine ⟨stackNumbers.trans (dataNumbers.trans numbers), rfl, rfl, third, image,
      .inl ⟨rfl, fun complete => ?_, rfl⟩⟩
    rw [complete.2.2.2.1, complete.2.2.2.2] at unread
    cases unread
  rename_i readAll
  rw [Bool.not_eq_true, Bool.or_eq_false_iff, Bool.not_eq_false', Bool.not_eq_false'] at readAll
  obtain ⟨protectedTable, protects, done⟩ := Outcome.bind_eq_ok.mp done
  cases done
  exact ⟨stackNumbers.trans (dataNumbers.trans numbers), rfl, rfl, third, image,
    .inr ⟨rfl, ⟨textAll.mp textMapped, dataAll.mp dataMapped, stackAll.mp stackMapped, readAll⟩,
      protects, rfl, rfl, rfl⟩⟩

end

end Yallnix
