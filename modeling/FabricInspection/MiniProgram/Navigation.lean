import FabricInspection.Tabular.Fields

namespace FabricInspection.MiniProgram

abbrev Text := List Char

-- What onLoad of the statistics page is given. A parameter that is missing is undefined.
structure Options where
  d1 : Option Text
  d2 : Option Text
  d3 : Option Text
  d4 : Option Text
  d5 : Option Text
  d6 : Option Text
  d7 : Option Text
  deriving DecidableEq, Repr

def statPath : Text :=
  ['/', 'p', 'a', 'g', 'e', 's', '/', 's', 't', 'a', 't', '/', 's', 't', 'a', 't']

def param (digit : Char) (value : Text) : Text := ['d', digit, '='] ++ value

def statUrl (d1 d2 d3 d4 d5 d6 d7 : Text) : Text :=
  statPath ++ '?' :: param '1' d1 ++ '&' :: param '2' d2 ++ '&' :: param '3' d3 ++
    '&' :: param '4' d4 ++ '&' :: param '5' d5 ++ '&' :: param '6' d6 ++ '&' :: param '7' d7

-- No character that has a meaning of its own in a query.
def Plain (t : Text) : Prop := ∀ c ∈ t, c ∉ ['?', '&', '=', '#', '%', '+']

def Delivers (navigateTo : Text → Options) : Prop :=
  ∀ d1 d2 d3 d4 d5 d6 d7, (∀ t ∈ [d1, d2, d3, d4, d5, d6, d7], Plain t) →
    navigateTo (statUrl d1 d2 d3 d4 d5 d6 d7) =
      ⟨some d1, some d2, some d3, some d4, some d5, some d6, some d7⟩

-- The parameters of a path, each a name and a value.
def queryFields (url : Text) : List (List Text) :=
  (((url.dropWhile (· ≠ '?')).drop 1).splitOn '&').map fun field => field.splitOn '='

def lookup (fields : List (List Text)) (name : Text) : Option Text :=
  fields.findSome? fun
    | [k, v] => if k = name then some v else none
    | _ => none

def queryOptions (url : Text) : Options :=
  let find := lookup (queryFields url)
  ⟨find ['d', '1'], find ['d', '2'], find ['d', '3'], find ['d', '4'], find ['d', '5'],
    find ['d', '6'], find ['d', '7']⟩

theorem plain_nil : Plain [] := nofun

theorem plain_cons {c : Char} {t : Text} (hc : c ∉ ['?', '&', '=', '#', '%', '+'])
    (ht : Plain t) : Plain (c :: t) := by
  intro x hx
  rcases List.mem_cons.mp hx with rfl | h
  · exact hc
  · exact ht x h

theorem Plain.append {s t : Text} (hs : Plain s) (ht : Plain t) : Plain (s ++ t) := by
  intro c hc
  rcases List.mem_append.mp hc with h | h
  · exact hs c h
  · exact ht c h

theorem Plain.not_mem {t : Text} (h : Plain t) {c : Char}
    (hc : c ∈ ['?', '&', '=', '#', '%', '+']) : c ∉ t :=
  fun ht => h c ht hc

theorem param_splitOn {t : Text} (h : Plain t) {digit : Char} (hd : digit ≠ '=') :
    (param digit t).splitOn '=' = [['d', digit], t] := by
  have ht : '=' ∉ t := h.not_mem (by decide)
  have hrow : (Tabular.row '=' ['d', digit] [t]).splitOn '=' = [['d', digit], t] :=
    Tabular.row_splitOn (by simp [hd.symm]) (by simpa using ht)
  simpa [Tabular.row, param] using hrow

def params (ps : List (Char × Text)) : Text :=
  ['&'].intercalate (ps.map fun p => param p.1 p.2)

theorem queryFields_params {ps : List (Char × Text)} (hps : ps ≠ [])
    (h : ∀ p ∈ ps, (p.1 ≠ '&' ∧ p.1 ≠ '=') ∧ Plain p.2) :
    queryFields (statPath ++ '?' :: params ps) = ps.map fun p => [['d', p.1], p.2] := by
  have hpath : ((statPath ++ '?' :: params ps).dropWhile (· ≠ '?')).drop 1 = params ps := rfl
  have hfree : ∀ field ∈ ps.map (fun p => param p.1 p.2), '&' ∉ field := by
    intro field hf
    obtain ⟨p, hp, rfl⟩ := List.mem_map.mp hf
    obtain ⟨⟨hd, -⟩, ht⟩ := h p hp
    have hmem : '&' ∉ p.2 := ht.not_mem (by decide)
    simp [param, hmem, hd.symm]
  rw [queryFields, hpath, params, List.splitOn_intercalate '&' hfree (by simpa using hps),
    List.map_map]
  refine List.map_congr_left fun p hp => ?_
  exact param_splitOn (h p hp).2 (h p hp).1.2

theorem statUrl_eq (d1 d2 d3 d4 d5 d6 d7 : Text) :
    statUrl d1 d2 d3 d4 d5 d6 d7 = statPath ++ '?' :: params
      [('1', d1), ('2', d2), ('3', d3), ('4', d4), ('5', d5), ('6', d6), ('7', d7)] := by
  simp [statUrl, params, List.intercalate]

theorem delivers_queryOptions : Delivers queryOptions := by
  intro d1 d2 d3 d4 d5 d6 d7 h
  have hfields := queryFields_params (List.cons_ne_nil ('1', d1)
    [('2', d2), ('3', d3), ('4', d4), ('5', d5), ('6', d6), ('7', d7)]) (by simpa using h)
  rw [queryOptions, statUrl_eq, hfields]
  rfl

end FabricInspection.MiniProgram
