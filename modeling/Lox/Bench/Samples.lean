/-!
# Sample scripts

The scripts that a benchmark runs when it is given no others: one for calls, one for
closures and one for loops.
-/

namespace Lox

namespace Bench

/-- Makes and calls many closures. -/
def closures : String :=
"fun makeAdder(n) \x7b
  fun add(x) \x7b
    return x + n;
  \x7d
  return add;
\x7d

var total = 0;
for (var i = 0; i < 2000; i = i + 1) \x7b
  var adder = makeAdder(i);
  total = adder(total);
\x7d
print total;
"

/-- Calls a recursive function. -/
def fibonacci : String :=
"fun fib(n) \x7b
  if (n < 2) return n;
  return fib(n - 1) + fib(n - 2);
\x7d

print fib(20);
"

/-- Goes through a loop with a condition in it. -/
def loops : String :=
"var sum = 0;
var i = 0;
while (i < 50000) \x7b
  if (i / 2 > 100 and i < 40000) \x7b
    sum = sum + 1;
  \x7d else \x7b
    sum = sum - 1;
  \x7d
  i = i + 1;
\x7d
print sum;
"

/-- The sample scripts, by the names of their files. -/
def samples : List (String × String) :=
  [("closures.jlox", closures), ("fibonacci.jlox", fibonacci), ("loops.jlox", loops)]

end Bench

end Lox
