import SourceSurvey.Text.Basic

/-! # Line ends of a file: a carriage return, alone or before a newline, is read as a newline -/

namespace SourceSurvey.Text

def unifyNewlines : Text → Text
  | [] => []
  | '\r' :: '\n' :: t => '\n' :: unifyNewlines t
  | '\r' :: t => '\n' :: unifyNewlines t
  | c :: t => c :: unifyNewlines t

end SourceSurvey.Text
