import SourceSurvey.Text.Basic

/-!
# Bodies

A body is read by a signed count of its braces. It ends at the brace that brings the count to zero;
as long as no brace was seen the count is zero and nothing has ended.
-/

namespace SourceSurvey.Body

def weight (c : Char) : Int := if c = '{' then 1 else if c = '}' then -1 else 0

/-- The count after the text, or nothing if one of its braces ends the body. -/
def count (depth : Int) : Text → Option Int
  | [] => some depth
  | c :: t =>
    if weight c = 0 then count depth t
    else if depth + weight c = 0 then none
    else count (depth + weight c) t

end SourceSurvey.Body
