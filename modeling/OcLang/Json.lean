namespace OcLang

/-! ## JSON documents

Strict JSON, read without loss: numbers keep their spelling, members keep their
order and repetitions. A string whose escapes leave half of a surrogate pair
unmatched denotes no text; it is still a legal string, so it is kept as `none`
and refused only where its text is asked for. -/

inductive Json where
  | null
  | boolean (value : Bool)
  | number (spelling : String)
  | string (text : Option String)
  | array (items : List Json)
  | object (members : List (Option String × Json))

end OcLang
