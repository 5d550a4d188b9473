import OrderedJobs.Config.Basic

/-! # Usage -/

namespace OrderedJobs

def version : String := "0.1.0"

/-- The help text. -/
def usage : String :=
"pararun - parallel run
usage: pararun [flags] [prefix]
pararun reads commands from stdin and runs them in parallel. one command
per line. pararun buffers the outputs so that the command is equivalent
of running the commands in sequence. the return code is the maximum among
all the runs. if all returned successfully then it is 0. flags:
  -h     : this help text
  -j[num]: maximum number of jobs to run at once. defaults to 2 times the
           number of cores the computer has. between 1 and " ++ toString Config.maxJobs ++ ".
  -r[num]: how many launched jobs may wait for their output to be printed.
           defaults to the -j value, must not be smaller.
  -q     : omit printing the commands (omit printing the yellow text).
examples:
parallel wordcount:
  ls | pararun wc
to download bunch of files:
  pararun -j99 <urls.txt wget
to compile bunch of files:
  for f in *.c; do echo gcc -o $\x7bf%.c\x7d $f; done | pararun -q
"

end OrderedJobs
