import MoggersOs.Shell.Listing
import MoggersOs.Shell.MainLoop
import MoggersOs.Shell.Terminal
/-
# What `cat` prints (`user_mode/command_list/cat.c`)

`cat` reads the file into one cluster and prints that up to the first 0. A file that has a 0 is printed up to there, as
the lines that it has (`cat_shows`); behind a file that has none stands what `write` left in its cluster, and `cat`
prints that as well, or goes on behind `cl`.

| here | there |
| --- | --- |
| `catChar`   | a round of the loop (`cat.c:33-41`) |
| `catText`   | the loop (`cat.c:30-42`), from a byte of `cl` on |
| `catPrints` | the rest of `cat` (`cat.c:28-47`) |

`retcode` is four bytes of which system call 0 stores the first (`interrupt.c:63`); `above` are the others.
-/

namespace MoggersOs

def catChar (s : Screen) (buf : UInt8) : Screen :=
  if buf = newline then s.nextRow
  else
    let s := (putchar buf biosWhite s).2
    { s with cursor := { s.cursor with col := s.cursor.col + 1 } }

def catText : List UInt8 → Screen → Option Screen
  | [], _ => none
  | buf :: rest, s => if buf = 0 then some s else catText rest (catChar s buf)

def catPrints (above : Fin 3 → UInt8) (rep : Reply) (s : Screen) : Option Screen :=
  (if (codeByte rep.code, above) = (0, fun _ => 0) then catText ((List.range 2048).map rep.buf) s else some s).map
    Screen.nextRow

/-! ## Lines -/

def textLine (l : List UInt8) : Line := ⟨fun j => l.getD j 0, ⟨UInt32.ofNat l.length, biosWhite⟩⟩

/-- The lines of a text that ends at the first 0. -/
def textLines (b : List UInt8) : List Line := ((b.takeWhile (· ≠ 0)).splitOn newline).map textLine

theorem catText_append {t rest : List UInt8} (ht : 0 ∉ t) : ∀ s, catText (t ++ 0 :: rest) s = some (t.foldl catChar s) := by
  induction t with
  | nil => exact fun s => if_pos rfl
  | cons buf t ih =>
    intro s
    obtain ⟨hbuf, ht⟩ := not_or.1 (mt List.mem_cons.2 ht)
    rw [List.cons_append, catText, if_neg (Ne.symm hbuf), ih ht, List.foldl_cons]

/-- A line is printed as `puts` does it. -/
theorem putsLine_textLine {l : List UInt8} (hl : newline ∉ l) (hlen : l.length < UInt32.size) (s : Screen) :
    putsLine s (textLine l) = (l.foldl catChar s).nextRow := by
  have hcount : (UInt32.ofNat l.length).toNat = l.length := UInt32.toNat_ofNat_of_lt' hlen
  have hbytes : (List.range l.length).map (fun j => l.getD j 0) = l := by
    refine List.ext_getElem (by simp) fun j hj hj' => ?_
    simp [List.getD_eq_getElem?_getD, List.getElem?_eq_getElem hj']
  have hround : ∀ s, ∀ j ∈ List.range l.length, putsRound (textLine l).text biosWhite s j = catChar s (l.getD j 0) := by
    intro s j hj
    have hmem : l.getD j 0 ∈ l := by
      rw [List.getD_eq_getElem?_getD, List.getElem?_eq_getElem (List.mem_range.1 hj)]
      exact List.getElem_mem _
    have hne : l.getD j 0 ≠ newline := fun h => hl (h ▸ hmem)
    unfold catChar
    rw [if_neg hne]
    rfl
  have hfold : l.foldl catChar s = (List.range l.length).foldl (putsRound (textLine l).text biosWhite) s :=
    calc l.foldl catChar s = ((List.range l.length).map fun j => l.getD j 0).foldl catChar s := by rw [hbytes]
      _ = (List.range l.length).foldl (fun s j => catChar s (l.getD j 0)) s := List.foldl_map
      _ = (List.range l.length).foldl (putsRound (textLine l).text biosWhite) s := (List.foldl_ext _ _ s hround).symm
  unfold putsLine puts
  rw [hfold]
  dsimp only [textLine]
  rw [hcount]
  rfl

/-- A text is printed line by line. -/
theorem putsLines_splitOn (t : List UInt8) : t.length < UInt32.size → ∀ s,
    putsLines ((t.splitOn newline).map textLine) s = (t.foldl catChar s).nextRow := by
  induction t using Lib.splitOn_induction newline with
  | last w hw =>
    intro hlen s
    rw [List.splitOn_eq_singleton hw]
    exact putsLine_textLine hw hlen s
  | cons w r hw ih =>
    intro hlen s
    rw [List.length_append, List.length_cons] at hlen
    rw [List.splitOn_append_cons_self_of_not_mem hw, List.foldl_append, List.foldl_cons, catChar, if_pos rfl,
      ← putsLine_textLine hw (by omega) s]
    exact ih (by omega) _

/-! ## The file -/

/-- The buffer of `read` as `cat` prints it. -/
theorem catPrints_text {rep : Reply} {b : List UInt8} (hcode : rep.code = 0) (hb : b.length ≤ 2048)
    (hbuf : ∀ i (hi : i < b.length), rep.buf i = b[i]) (hzero : 0 ∈ b) (s : Screen) :
    catPrints (fun _ => 0) rep s = some (putsLines (textLines b) s) := by
  -- what is behind the file in `cl` does not matter
  obtain ⟨slack, hcluster⟩ : ∃ slack, (List.range 2048).map rep.buf = b ++ slack := by
    have hread : ((List.range 2048).map rep.buf).take b.length = b := by
      refine List.ext_getElem ?_ fun i _ hi => ?_
      · rw [List.length_take, List.length_map, List.length_range, Nat.min_eq_left hb]
      · rw [List.getElem_take, List.getElem_map, List.getElem_range, hbuf i hi]
    refine ⟨((List.range 2048).map rep.buf).drop b.length, ?_⟩
    rw [← hread, List.length_take_of_le (by simpa using hb)]
    exact (List.take_append_drop ..).symm
  obtain ⟨t, rest, rfl, ht, hrest⟩ := Lib.exists_word 0 b
  obtain rfl | ⟨rest, rfl⟩ := hrest
  · rw [List.append_nil] at hzero
    exact absurd hzero ht
  have hlen : t.length ≤ 2048 := by
    rw [List.length_append] at hb
    omega
  have htake : (t ++ 0 :: rest).takeWhile (· ≠ 0) = t := by
    rw [List.takeWhile_append_of_pos]
    · simp
    · exact fun a ha => decide_eq_true fun h0 => ht (h0 ▸ ha)
  unfold catPrints textLines
  rw [hcode, if_pos (by rfl), hcluster, List.append_assoc, List.cons_append, catText_append ht, htake, Option.map_some,
    putsLines_splitOn t (Nat.lt_of_le_of_lt hlen (by decide))]

theorem catRequest_fileName (cl : ℕ → UInt8) (sh : Shell) (w : Word) :
    (catRequest cl sh w.arg).fileName = (w.arg.info, fun _ => 0) :=
  Prod.ext w.arg_name (funext fun _ => rfl)

/-- With the table up to date, `cat` finds the row of the file, and reads it. -/
theorem Sound.cat {y : Shell × State} {live : Finset Nat} {d : ℕ} {x : Files} {w : Word} {b : List UInt8}
    (h : Sound y live d) (hx : Represents y.2.volume live x) (htable : y.1.dirTable = y.2.volume.table d)
    (hn : x.look dotDotName d (w.arg.info, fun _ => 0) = some (.file b)) (hb : b.length ≤ 2048) (memory : ℕ → UInt8) :
    (∃ out, MoggersOs.cat 512 memory y.1 y.2 w.arg = some out) ∧
      ∀ fuel out, MoggersOs.cat fuel memory y.1 y.2 w.arg = some out →
        out.1.code = 0 ∧ ∀ i (hi : i < b.length), out.1.buf i = b[i] := by
  have hparent : ∀ cl, (catRequest cl y.1 w.arg).parent = d := fun _ => h.here
  have hreads := fun cl => h.reads (r := catRequest cl y.1 w.arg) hx (hparent cl)
    (by rw [catRequest_fileName]; exact hn) hb
  obtain ⟨hnamed, -, -⟩ := hreads memory
  have hentry := hx.findRow h.run.inv (by rw [hparent]; exact h.alive) hnamed
  rw [hparent, catRequest_fileName, Lib.Namespace.entry_of_look hn,
    ← getEntryRow_eq _ (congrArg Prod.fst (catRequest_fileName memory y.1 w)) (congrArg Prod.snd (catRequest_fileName memory y.1 w)),
    ← htable] at hentry
  obtain ⟨row, hrow, hnode⟩ := Option.map_eq_some_iff.1 hentry.symm
  have hsize : (y.1.dirTable row).filesize.toNat = b.length := by
    rw [htable]
    rw [htable] at hnode
    by_cases hf : (y.2.volume.table d row).Folder
    · rw [Volume.node_folder hf] at hnode
      cases hnode
    · rw [Volume.node_file hf, Lib.Node.file.injEq] at hnode
      rw [← hnode, Volume.length_bytes]
  have hone : clustersOf b.length ≤ 1 := by
    rw [clustersOf_eq_ceil]
    omega
  obtain ⟨-, ⟨out, hout⟩, hall⟩ := hreads (if clustersOf b.length = 1 then fun _ => 0 else memory)
  have hneeded : clusterNeeded y.1.dirTable w.arg = clustersOf b.length := by
    rw [clusterNeeded, argumentEntry_of_row hrow, hsize]
  have hcat : ∀ fuel, MoggersOs.cat fuel memory y.1 y.2 w.arg =
      read fuel y.2 (catRequest (if clustersOf b.length = 1 then fun _ => 0 else memory) y.1 w.arg) := by
    intro fuel
    unfold MoggersOs.cat
    dsimp only
    rw [hneeded, if_neg (Nat.not_lt.2 hone)]
  refine ⟨⟨out, (hcat 512).trans hout⟩, fun fuel out' hout' => ?_⟩
  obtain ⟨hcode, hbuf, -⟩ := hall fuel out' ((hcat fuel).symm.trans hout')
  exact ⟨hcode, hbuf⟩

/-- A file `f` with the text `ab`, `c`. -/
def textRequest : Request := ⟨fun i => [97, 98, 10, 99, 0].getD i 0, fileName, fun _ => 0, 2, 5⟩

def withText : State := (write (createFat32 blankState) textRequest).2

theorem textRequest_ordinary : Ordinary (createFat32 blankState).volume {rootClusterNumber} (.write textRequest) := by
  refine ⟨by decide, by decide, fun _ => rfl, ?_⟩
  rw [createFat32_fits]
  decide

theorem withText_run : Run Ordinary withText {rootClusterNumber} := by
  have hrun := (Run.format Ordinary blankState).write textRequest_ordinary
  rwa [liveAfter_mkfile (by decide)] at hrun

theorem withText_entry : ∃ x, Represents withText.volume {rootClusterNumber} x ∧
    x.entry rootClusterNumber textRequest.fileName = some (.file [97, 98, 10, 99, 0]) := by
  have hstep := Step.write textRequest_ordinary
  rw [liveAfter_mkfile (by decide)] at hstep
  obtain ⟨x, hserves, hx⟩ := (Refined.format blankState).step hstep
  refine ⟨x, hx.represents, ?_⟩
  have hbytes : textRequest.bytes = [97, 98, 10, 99, 0] := by decide
  exact (hserves.freshFile (by decide)).trans (by rw [hbytes])

/-- The shell beside it after `mkdir g`. -/
def besideText : Shell × State := mkdir (cdRoot (fun _ => 0) withText).1 (cdRoot (fun _ => 0) withText).2 gWord.arg

theorem besideText_path : Lib.Path (fun x t y => TypedLine.Given x t y) (cdRoot (fun _ => 0) withText)
    [mkdirLine.typedIn (cdRoot (fun _ => 0) withText).1.here] besideText := by
  have hvol := cdRoot_volume (fun _ => 0) withText
  refine .cons (mkdirLine_typed ?_) .nil
  rw [← State.volume_fat, hvol]
  exact firstFile_free blankState rfl (by decide) (by decide)

theorem besideText_here : besideText.1.path = [rootArg fun _ => 0] := by
  rw [besideText, mkdir_path, cdRoot_path]

end MoggersOs
