import FlatAssembler.Proofs.Modes
import FlatAssembler.Proofs.Slots

/-!
# The listing covers the output

An `Emission` is a source line that has put something out, with the number of its bytes.
Lines are met one at a time, those of an included file in between, and a line that
includes a file puts out nothing of its own. So the emissions of a history lie side by
side in the output, and the offset of each is the sum of the lengths before it.

`Emission.listing` is the listing that such lines should have, read off the output at
the end. It carries the offset along, so it splits at any point of the list, and it does
not change when the output grows. Entries are made from the output of their time;
`Lists` compares the two, from one session to a later one, and `listing_covers` says it
of all loads of a new session. The output must not be moved in between, since entries
are copies.
-/

namespace FlatAssembler

/-- A source line that put something out, and how many bytes. -/
structure Emission where
  length : Nat
  text : Text
  deriving DecidableEq, Repr

namespace Emission

/-- The number of bytes that the lines put out together. -/
def total : List Emission → Nat
  | [] => 0
  | line :: rest => line.length + total rest

/-- The listing of lines that fill the output from an offset on. -/
def listing (base : UInt32) (output : List UInt8) : Nat → List Emission → List ListingEntry
  | _, [] => []
  | offset, line :: rest =>
      .ofBytes (base + UInt32.ofNat offset) ((output.drop offset).take line.length)
          line.text.trim ::
        listing base output (offset + line.length) rest

@[simp] theorem total_nil : total [] = 0 := rfl

@[simp] theorem total_cons (line : Emission) (rest : List Emission) :
    total (line :: rest) = line.length + total rest := rfl

@[simp] theorem total_append (lines more : List Emission) :
    total (lines ++ more) = total lines + total more := by
  induction lines with
  | nil => simp
  | cons line rest ih => rw [List.cons_append, total_cons, ih, total_cons, Nat.add_assoc]

theorem listing_append (base : UInt32) (output : List UInt8) (offset : Nat)
    (lines more : List Emission) :
    listing base output offset (lines ++ more) =
      listing base output offset lines ++ listing base output (offset + total lines) more := by
  induction lines generalizing offset with
  | nil => rfl
  | cons line rest ih =>
      rw [List.cons_append, listing, ih, listing, total_cons, Nat.add_assoc, List.cons_append]

/-- Output that is added behind the lines does not show in their listing. -/
theorem listing_of_extended {base : UInt32} {output output' : List UInt8} {offset : Nat}
    {lines : List Emission} (h : output <+: output') (hend : offset + total lines ≤ output.length) :
    listing base output' offset lines = listing base output offset lines := by
  induction lines generalizing offset with
  | nil => rfl
  | cons line rest ih =>
      rw [total_cons] at hend
      obtain ⟨more, rfl⟩ := h
      rw [listing, listing, ih (by omega), List.drop_append_of_le_length (by omega),
        List.take_append_of_le_length (by rw [List.length_drop]; omega)]

/-- The entry of a line shows the output at the sum of the lengths before it. -/
theorem getElem?_listing {base : UInt32} {output : List UInt8} {offset : Nat}
    {lines : List Emission} (hend : offset + total lines ≤ output.length) (i : Nat) :
    (listing base output offset lines)[i]? =
      lines[i]?.map fun line =>
        let start := offset + total (lines.take i)
        { address := base + UInt32.ofNat start
          bytes := (output.drop start).take (min line.length ListingEntry.shown)
          more := decide (ListingEntry.shown < line.length)
          source := line.text.trim } := by
  induction lines generalizing offset i with
  | nil => simp [listing]
  | cons line rest ih =>
      rw [total_cons] at hend
      cases i with
      | zero =>
          have hlength : ((output.drop offset).take line.length).length = line.length := by
            rw [List.length_take, List.length_drop]
            omega
          simp [listing, ListingEntry.ofBytes, hlength, List.take_take, Nat.min_comm]
      | succ i =>
          rw [listing, List.getElem?_cons_succ, ih (by omega), List.getElem?_cons_succ,
            List.take_succ_cons, total_cons, ← Nat.add_assoc]

end Emission

namespace Session

/-- The line of an event, if it puts something out. -/
def emission? (s : Session) : Event → Option Emission
  | .line site text =>
      let length := (s.assembleLine site text).1.bytes.size - s.bytes.size
      if length = 0 then none else some { length, text }
  | _ => none

/-- The lines of a stretch of history that put something out, in their order. -/
def emissions (moments : List (Session × Event)) : List Emission :=
  moments.filterMap fun m => m.1.emission? m.2

theorem emissions_cons (m : Session × Event) (moments : List (Session × Event)) :
    emissions (m :: moments) = (m.1.emission? m.2).toList ++ emissions moments := by
  rw [emissions, List.filterMap_cons, emissions]
  cases m.1.emission? m.2 <;> rfl

theorem emissions_append (moments more : List (Session × Event)) :
    emissions (moments ++ more) = emissions moments ++ emissions more :=
  List.filterMap_append

theorem length_pos_of_mem_emissions {moments : List (Session × Event)} {line : Emission}
    (h : line ∈ emissions moments) : 1 ≤ line.length := by
  obtain ⟨⟨s, event⟩, -, heq⟩ := List.mem_filterMap.mp h
  cases event with
  | line site text =>
      rw [emission?] at heq
      split at heq
      · cases heq
      · rename_i hne
        cases heq
        exact Nat.pos_of_ne_zero hne
  | entered _ | repeated _ | completed _ | unreadable _ _ => cases heq

/-- From `s` to `t` these lines have put something out, and they are listed. -/
structure Lists (s : Session) (lines : List Emission) (t : Session) : Prop extends
    Grows s t where
  size : t.bytes.size = s.bytes.size + Emission.total lines
  entries : t.listing.toList =
    s.listing.toList ++ Emission.listing s.base t.bytes.toList s.bytes.size lines

namespace Lists

theorem of_same {s t : Session} (h : Grows s t) (hsize : t.bytes.size = s.bytes.size)
    (hlisting : t.listing = s.listing) : Lists s [] t where
  toGrows := h
  size := hsize
  entries := by
    rw [hlisting]
    exact (List.append_nil _).symm

theorem trans {s t u : Session} {lines more : List Emission} (h : Lists s lines t)
    (hmore : Lists t more u) : Lists s (lines ++ more) u where
  toGrows := h.toGrows.trans hmore.toGrows
  size := by
    rw [hmore.size, h.size, Emission.total_append, Nat.add_assoc]
  entries := by
    have hend : s.bytes.size + Emission.total lines ≤ t.bytes.toList.length := by
      simp [h.size]
    rw [hmore.entries, h.entries, Emission.listing_append,
      Emission.listing_of_extended hmore.bytes hend, h.base, h.size, List.append_assoc]

end Lists

/-! ### One line -/

theorem listing_execute {s t : Session} {st : Statement} (h : s.execute st = (t, none)) :
    t.listing = s.listing := by
  rcases execute_cases h with ⟨rfl, -, -⟩ | ⟨name, expression, -, -, hdefine⟩ |
    ⟨name, -, -, rfl⟩ | ⟨width, -, -, hemit⟩
  · rfl
  · obtain ⟨-, value, -, rfl⟩ := defineConstant_cases hdefine
    rw [record_eq]
  · rfl
  · rw [emit] at hemit
    obtain ⟨rfl, hnone⟩ := Prod.mk.inj hemit
    rw [fill_eq_of_none rfl hnone]

/-- A line is listed if it has put something out, with what the output has behind the
point at which the line was met. -/
theorem lists_list {s t : Session} (hgrows : Grows s t) (hlisting : t.listing = s.listing)
    (hlisted : s.listed = true) (text : Text) :
    Lists s
      (if t.bytes.size - s.bytes.size = 0 then []
        else [{ length := t.bytes.size - s.bytes.size, text }])
      (t.list s.bytes.size text.trim) := by
  have hle := hgrows.size_le
  have hlisted' : t.listed = true := hgrows.listed.trans hlisted
  split
  · rename_i hzero
    have hlist : t.list s.bytes.size text.trim = t := by
      rw [list, hlisted', if_neg (by simp; omega)]
    rw [hlist]
    exact .of_same hgrows (by omega) hlisting
  · rename_i hpos
    have hlt : s.bytes.size < t.bytes.size := by omega
    refine ⟨hgrows.trans (t.grows_list _ _), ?_, ?_⟩
    · rw [list, hlisted', if_pos (by simp [hlt])]
      simp [Emission.total]
      omega
    · rw [list, hlisted', if_pos (by simp [hlt])]
      simp [Emission.listing, hlisting, hgrows.base]

theorem lists_step {s t : Session} {event : Event} (hlisted : s.listed = true)
    (h : s.step event = (t, none)) : Lists s (s.emission? event).toList t := by
  cases event with
  | entered key =>
      cases h
      exact .of_same (.of_same rfl) rfl rfl
  | repeated path =>
      cases h
      exact .of_same (s.grows_note _) rfl rfl
  | completed path =>
      cases h
      exact .of_same (s.grows_note _) rfl rfl
  | unreadable failure origin => cases origin <;> cases h
  | line site text =>
      rcases hexecute : (s.atLine site (Statement.parse text)).execute (Statement.parse text) with
        ⟨u, _ | cause⟩
      · rw [step, assembleLine_of_none hexecute] at h
        cases h
        have hgrows : Grows s u := by
          have hline := compatible_grows.atLine s site (Statement.parse text)
          have hdirective := compatible_grows.execute (s.atLine site (Statement.parse text))
            (Statement.parse text)
          rw [hexecute] at hdirective
          exact hline.trans hdirective
        have hlisting : u.listing = s.listing := by
          rw [listing_execute hexecute, atLine_eq]
        have hlist := lists_list hgrows hlisting hlisted text
        rw [emission?, assembleLine_of_none hexecute]
        simp only [bytes_list]
        split
        · rename_i hzero
          rwa [if_pos hzero] at hlist
        · rename_i hpos
          rwa [if_neg hpos] at hlist
      · rw [step, assembleLine_of_some hexecute] at h
        cases h

/-! ### Runs and loads -/

theorem lists_run {s : Session} {events : List Event} (hlisted : s.listed = true)
    (h : (s.run events).2 = none) :
    Lists s (emissions (s.moments events)) (s.run events).1 := by
  induction events generalizing s with
  | nil => exact .of_same (.refl s) rfl rfl
  | cons event rest ih =>
      obtain ⟨t, ht, hrest⟩ := step_of_run_cons h
      have hstep := lists_step hlisted ht
      rw [run_cons_of_none ht, moments_cons_of_none ht, emissions_cons]
      exact hstep.trans (ih (hstep.listed.trans hlisted) hrest)

theorem succeeds_of_response? {s : Session} {fs : FileSystem} {operation : Operation}
    (h : (s.response? fs operation).any Except.isOk = true) :
    operation.isLoad = true ∧ Succeeds fs s operation := by
  cases operation with
  | load path => exact ⟨rfl, h⟩
  | loadSource name source => exact ⟨rfl, h⟩
  | rebase _ | setStrict _ | setListed _ => cases h

theorem lists_operate {s : Session} {fs : FileSystem} {operation : Operation}
    (hlisted : s.listed = true) (hload : operation.isLoad = true)
    (h : Succeeds fs s operation) :
    Lists s (emissions (s.moments (operation.events fs s))) (s.operate fs operation).1 := by
  obtain ⟨heq, hok⟩ := s.operate_of_isLoad fs hload
  have hrun := lists_run hlisted (hok.mp h)
  rw [heq]
  exact ⟨hrun.toGrows.trans (.of_same rfl), hrun.size, hrun.entries⟩

theorem lists_operateEach {s : Session} {calls : List (FileSystem × Operation)}
    (hlisted : s.listed = true)
    (h : ∀ response ∈ s.responses calls, response.any Except.isOk = true) :
    Lists s (emissions (s.historyEach calls)) (s.operateEach calls) := by
  induction calls generalizing s with
  | nil => exact .of_same (.refl s) rfl rfl
  | cons call rest ih =>
      obtain ⟨fs, operation⟩ := call
      obtain ⟨hresponse, hrest⟩ := List.forall_mem_cons.mp h
      obtain ⟨hload, hsucceeds⟩ := succeeds_of_response? hresponse
      have hfirst := lists_operate hlisted hload hsucceeds
      rw [operateEach_cons, historyEach, emissions_append]
      exact hfirst.trans (ih (hfirst.listed.trans hlisted) hrest)

/-- After loads that all succeed in a new session with listing on, the lengths of the
lines that put something out add up to the size of the output, and each such line has
one entry, in its place: it has the address of the sum of the lengths before it, shows
up to eight bytes of the output from there on, says whether there are more, and carries
the text of the line. -/
theorem listing_covers (base : UInt32) (constants : Constants) (strict : Bool)
    (calls : List (FileSystem × Operation))
    (h : ∀ response ∈ ({ base, constants, strict, listed := true } : Session).responses calls,
      response.any Except.isOk = true) :
    let s : Session := { base, constants, strict, listed := true }
    let t := s.operateEach calls
    let lines := emissions (s.historyEach calls)
    (∀ line ∈ lines, 1 ≤ line.length) ∧
      Emission.total lines = t.bytes.size ∧
      ∀ i, t.listing[i]? = lines[i]?.map fun line =>
        let offset := Emission.total (lines.take i)
        { address := base + UInt32.ofNat offset
          bytes := (t.bytes.toList.drop offset).take (min line.length 8)
          more := decide (8 < line.length)
          source := line.text.trim } := by
  intro s t lines
  have hlists : Lists s lines t := lists_operateEach rfl h
  have hsize : t.bytes.size = Emission.total lines := by
    rw [hlists.size]
    exact Nat.zero_add _
  refine ⟨fun line => length_pos_of_mem_emissions, hsize.symm, ?_⟩
  intro i
  have hend : 0 + Emission.total lines ≤ t.bytes.toList.length := by
    simp [hsize]
  have hentry := @Emission.getElem?_listing base t.bytes.toList 0 lines hend i
  rw [← Array.getElem?_toList, hlists.entries]
  simp only [Nat.zero_add] at hentry
  exact hentry

/-- A load that goes into another file between two of its lines, at a base from which
addresses go round the end of 32 bits, and a second load. -/
theorem listing_covers_included :
    let fs : FileSystem := { files := [(["x.s"], ".equ K,2\n.byte 1,K,3,4,5,6,7,8,9")] }
    let calls : List (FileSystem × Operation) :=
      [(fs, .loadSource "m.s" "L: .word L\n.include \"x.s\"\n .hword K @ two\r\n.end"),
        ({}, .loadSource "n.s" ".byte 7")]
    let s : Session := { base := 0xFFFFFFFE, listed := true }
    let t := s.operateEach calls
    (∀ response ∈ s.responses calls, response.any Except.isOk = true) ∧
      emissions (s.historyEach calls) =
        [⟨4, "L: .word L"⟩, ⟨9, ".byte 1,K,3,4,5,6,7,8,9"⟩, ⟨2, " .hword K @ two"⟩,
          ⟨1, ".byte 7"⟩] ∧
      t.bytes.size = 16 ∧
      t.listing[1]? = some ⟨2, [1, 2, 3, 4, 5, 6, 7, 8], true, ".byte 1,K,3,4,5,6,7,8,9"⟩ := by
  intro fs calls s t
  have h : ∀ response ∈ s.responses calls, response.any Except.isOk = true := by decide +kernel
  have hlines : emissions (s.historyEach calls) =
      [⟨4, "L: .word L"⟩, ⟨9, ".byte 1,K,3,4,5,6,7,8,9"⟩, ⟨2, " .hword K @ two"⟩,
        ⟨1, ".byte 7"⟩] := by
    decide +kernel
  obtain ⟨-, hsize, hentry⟩ := listing_covers 0xFFFFFFFE [] false calls h
  refine ⟨h, hlines, ?_, ?_⟩
  · rw [← hsize, hlines]
    rfl
  · rw [hentry, hlines]
    decide +kernel

end Session

end FlatAssembler
