/-!
# Names of compiler arguments

The arguments that the C compiler knows, by what stands in front of them. Some can be turned off by
a word in front of their names, and some have a value behind a sign.
-/

namespace LoopNest.Compiler.Options

def words (s : String) : List String := s.splitOn " "

def plain : List String :=
  words
    ("--all-warnings --ansi --comments --comments-in-macros --coverage --debug " ++
     "--extra-warnings --no-line-commands --no-standard-libraries --no-warnings --pedantic " ++
     "--pedantic-errors --pic --profile --shared --trace-includes --trigraphs --verbose -C " ++
     "-CC -H -MD -MMD -P -Q -X -cpp -dA -dD -dI -dM -dN -dP -dU -dp -g -g0 -g1 -g2 -g3 " ++
     "-gas-loc-support -gas-locview-support -gbtf -gcoff -gcolumn-info -gctf -gdescribe-dies " ++
     "-gdwarf -gdwarf-2 -gdwarf-3 -gdwarf-4 -gdwarf-5 -gdwarf32 -gdwarf64 -ggdb -ggdb0 " ++
     "-ggdb1 -ggdb2 -ggdb3 -ggnu-pubnames -ginline-points -ginternal-reset-location-views " ++
     "-gno-column-info -gno-inline-points -gno-pubnames -gno-record-gcc-switches " ++
     "-gno-split-dwarf -gno-statement-frontiers -gno-strict-dwarf " ++
     "-gno-variable-location-views -gpubnames -grecord-gcc-switches -gsplit-dwarf -gstabs " ++
     "-gstabs+ -gstatement-frontiers -gstrict-dwarf -gtoggle -gvariable-location-views " ++
     "-gxcoff -gz -gz=none -gz=zlib -no-integrated-cpp -no-pie -nocpp -nodefaultlibs -nolibc " ++
     "-nostartfiles -nostdinc++ -nostdlib -p -pass-exit-codes -pedantic -pedantic-errors -pg " ++
     "-pie -pipe -pthread -rdynamic -remap -s -save-temps -save-temps=cwd -save-temps=obj " ++
     "-shared -shared-libgcc -static-libgcc -static-libstdc++ -t -time -trigraphs -v")

/-- Options of code generation that can be turned on and off. -/
def features : List String :=
  words
    ("PIC PIE access-control aggressive-function-elimination aggressive-loop-optimizations " ++
     "align-commons align-functions align-jumps align-labels align-loops aligned-new " ++
     "all-instantiations all-virtual allocation-dce allow-argument-mismatch " ++
     "allow-leading-underscore allow-parameterless-variadic-functions allow-store-data-races " ++
     "alt-external-templates analyzer analyzer-call-summaries analyzer-feasibility " ++
     "analyzer-fine-grained analyzer-show-duplicate-count analyzer-state-merge " ++
     "analyzer-state-purge analyzer-transitivity analyzer-undo-inlining " ++
     "analyzer-verbose-edges analyzer-verbose-state-changes argument-alias argument-noalias " ++
     "argument-noalias-anything argument-noalias-global asm assert associative-math " ++
     "asynchronous-unwind-tables auto-inc-dec automatic backslash backtrace bit-tests " ++
     "bounds-check branch-count-reg branch-probabilities branch-target-load-optimize " ++
     "branch-target-load-optimize2 btr-bb-exclusive building-libgcc building-libgfortran " ++
     "building-libphobos-tests builtin c-prototypes c-prototypes-external caller-saves " ++
     "canon-prefix-map canonical-system-headers char8_t check-array-temporaries " ++
     "check-data-deps check-new check-pointer-bounds checking chkp-check-incomplete-type " ++
     "chkp-check-read chkp-check-write chkp-flexible-struct-trailing-arrays " ++
     "chkp-instrument-calls chkp-instrument-marked-only chkp-narrow-bounds chkp-optimize " ++
     "chkp-store-bounds chkp-treat-zero-dynamic-size-as-infinite " ++
     "chkp-use-fast-string-functions chkp-use-nochk-string-functions chkp-use-static-bounds " ++
     "chkp-use-static-const-bounds chkp-use-wrappers chkp-zero-input-bounds-for-main " ++
     "cilkplus code-hoisting combine-stack-adjustments common compare-debug compare-elim " ++
     "concepts concepts-ts cond-mismatch conserve-space conserve-stack constexpr-fp-except " ++
     "coroutines cprop-registers cray-pointer crossjumping cse-follow-jumps cse-skip-blocks " ++
     "cx-fortran-rules cx-limited-range data-sections dbg-cnt-list dce debug debug-aux-vars " ++
     "debug-cpp debug-types-section dec dec-blank-format-item dec-char-conversions " ++
     "dec-format-defaults dec-include dec-intrinsic-ints dec-math dec-static dec-structure " ++
     "declone-ctor-dtor deduce-init-list default-double-8 default-inline default-integer-8 " ++
     "default-real-10 default-real-16 default-real-8 defer-pop delayed-branch " ++
     "delete-dead-exceptions delete-null-pointer-checks devirtualize devirtualize-at-ltrans " ++
     "devirtualize-speculatively diagnostics-color diagnostics-generate-patch " ++
     "diagnostics-parseable-fixits diagnostics-show-caret diagnostics-show-cwe " ++
     "diagnostics-show-labels diagnostics-show-line-numbers diagnostics-show-option " ++
     "diagnostics-show-path-depths diagnostics-show-rules diagnostics-show-template-tree " ++
     "directives-only doc dollar-ok dollars-in-identifiers druntime dse dump-core " ++
     "dump-internal-locations dump-noaddr dump-passes dump-unnumbered dump-unnumbered-links " ++
     "dwarf2-cfi-asm early-inlining elide-constructors elide-type eliminate-dwarf2-dups " ++
     "eliminate-unused-debug-symbols eliminate-unused-debug-types emit-class-debug-always " ++
     "emit-struct-debug-baseonly emit-struct-debug-reduced enforce-eh-specs enum-int-equiv " ++
     "exceptions expensive-optimizations ext-numeric-literals extended-identifiers " ++
     "extern-tls-init external-blas external-templates f2c fast-math fat-lto-objects " ++
     "finite-loops finite-math-only float-store for-scope force-addr forward-propagate " ++
     "fp-int-builtin-inexact freestanding friend-injection frontend-loop-interchange " ++
     "frontend-optimize function-cse function-sections gcse gcse-after-reload gcse-las " ++
     "gcse-lm gcse-sm gimple gnu-keywords gnu-tm gnu-unique gnu89-inline " ++
     "go-check-divide-overflow go-check-divide-zero go-compiling-runtime " ++
     "go-debug-optimization go-optimize-allocs graphite graphite-identity " ++
     "guess-branch-probability guiding-decls handle-exceptions harden-compares " ++
     "harden-conditional-branches hoist-adjacent-loads honor-std hosted huge-objects ident " ++
     "if-conversion if-conversion2 ignore-unknown-pragmas implement-inlines " ++
     "implicit-constexpr implicit-inline-templates implicit-none implicit-templates " ++
     "indirect-inlining inhibit-size-directive init-derived init-local-zero inline " ++
     "inline-arg-packing inline-atomics inline-functions inline-functions-called-once " ++
     "inline-small-functions instrument-functions instrument-functions-once invariants " ++
     "ipa-bit-cp ipa-cp ipa-cp-alignment ipa-cp-clone ipa-icf ipa-icf-functions " ++
     "ipa-icf-variables ipa-matrix-reorg ipa-modref ipa-profile ipa-pta ipa-pure-const " ++
     "ipa-ra ipa-reference ipa-reference-addressable ipa-sra ipa-stack-alignment " ++
     "ipa-strict-aliasing ipa-struct-reorg ipa-vrp ira-hoist-pressure ira-loop-pressure " ++
     "ira-share-save-slots ira-share-spill-slots isolate-erroneous-paths-attribute " ++
     "isolate-erroneous-paths-dereference ivopts jump-tables keep-gc-roots-live " ++
     "keep-inline-functions keep-static-consts keep-static-functions labels-ok " ++
     "lang-info-include-translate lang-info-include-translate-not lang-info-module-cmi " ++
     "large-source-files lax-vector-conversions lifetime-dse limit-function-alignment " ++
     "live-range-shrinkage local-ivars loop-block loop-flatten loop-interchange " ++
     "loop-nest-optimize loop-optimize loop-parallelize-all loop-strip-mine " ++
     "loop-unroll-and-jam lra-remat lto lto-odr-type-merging lto-report lto-report-wpa " ++
     "ltrans math-errno mem-report mem-report-wpa merge-all-constants merge-constants " ++
     "merge-debug-strings module-implicit-inline module-lazy module-private " ++
     "module-version-ignore moduleinfo modules-ts modulo-sched modulo-sched-allow-regmoves " ++
     "move-loop-invariants move-loop-stores ms-extensions mudflap mudflapir mudflapth " ++
     "name-mangling-version- new-abi new-inheriting-ctors new-ttp-matching nil-receivers " ++
     "non-call-exceptions nonansi-builtins nonnull-objects nothrow-opt objc-call-cxx-cdtors " ++
     "objc-direct-dispatch objc-exceptions objc-gc objc-nilcheck objc-sjlj-exceptions " ++
     "omit-frame-pointer openacc openmp openmp-simd operator-names opt-info " ++
     "optimize-register-move optimize-sibling-calls optimize-strlen optional-diags " ++
     "pack-derived pack-struct pad-source partial-inlining pcc-struct-return pch-deps " ++
     "pch-preprocess peel-loops peephole peephole2 permissive pic pie plan9-extensions plt " ++
     "post-ipa-mem-report postconditions pre-ipa-mem-report preconditions " ++
     "predictive-commoning prefetch-loop-arrays pretty-templates printf-return-value profile " ++
     "profile-abs-path profile-arcs profile-correction profile-generate " ++
     "profile-partial-training profile-reorder-functions profile-report profile-use " ++
     "profile-values protect-parens range-check realloc-lhs reciprocal-math " ++
     "record-gcc-switches recursive ree reg-struct-return regmove release rename-registers " ++
     "reorder-blocks reorder-blocks-and-partition reorder-functions repack-arrays " ++
     "replace-objc-classes repo report-bug require-return-statement rerun-cse-after-loop " ++
     "rerun-loop-opt reschedule-modulo-scheduled-loops rounding-math rtti " ++
     "sanitize-address-use-after-scope sanitize-recover sanitize-undefined-trap-on-error " ++
     "save-optimization-record sched-critical-path-heuristic sched-dep-count-heuristic " ++
     "sched-group-heuristic sched-interblock sched-last-insn-heuristic sched-pressure " ++
     "sched-rank-heuristic sched-spec sched-spec-insn-heuristic sched-spec-load " ++
     "sched-spec-load-dangerous sched-stalled-insns sched-stalled-insns-dep " ++
     "sched2-use-superblocks sched2-use-traces schedule-fusion schedule-insns " ++
     "schedule-insns2 second-underscore section-anchors see sel-sched-pipelining " ++
     "sel-sched-pipelining-outer-loops sel-sched-reschedule-pipelined selective-scheduling " ++
     "selective-scheduling2 semantic-interposition short-enums short-wchar show-column " ++
     "shrink-wrap shrink-wrap-separate sign-zero signaling-nans signed-bitfields signed-char " ++
     "signed-zeros single-precision-constant sized-deallocation split-ivs-in-unroller " ++
     "split-loops split-paths split-stack split-wide-types split-wide-types-early squangle " ++
     "ssa-backprop ssa-phiopt stack-arrays stack-check stack-clash-protection " ++
     "stack-protector stats stdarg-opt store-merging strength-reduce strict-aliasing " ++
     "strict-enums strict-overflow strict-prototype strict-volatile-bitfields " ++
     "strong-eval-order switch-errors sync-libcalls tail-call-workaround test-coverage " ++
     "test-forall-temp this-is-variable thread-jumps threadsafe-statics time-report " ++
     "time-report-details toplevel-reorder tracer trampolines trapping-math trapv " ++
     "tree-bit-ccp tree-builtin-call-dce tree-ccp tree-ch tree-coalesce-vars tree-copy-prop " ++
     "tree-copyrename tree-cselim tree-dce tree-dominator-opts tree-dse tree-forwprop " ++
     "tree-fre tree-loop-distribute-patterns tree-loop-distribution tree-loop-if-convert " ++
     "tree-loop-if-convert-stores tree-loop-im tree-loop-ivcanon tree-loop-linear " ++
     "tree-loop-optimize tree-loop-vectorize tree-lrs tree-partial-pre tree-phiprop tree-pre " ++
     "tree-pta tree-reassoc tree-salias tree-scev-cprop tree-sink tree-slp-vectorize " ++
     "tree-slsr tree-sra tree-store-ccp tree-store-copy-prop tree-switch-conversion " ++
     "tree-tail-merge tree-ter tree-vect-loop-version tree-vectorize tree-vrp " ++
     "unconstrained-commons underscoring unit-at-a-time unittest unreachable-traps " ++
     "unroll-all-loops unroll-completely-grow-size unroll-loops unsafe-loop-optimizations " ++
     "unsafe-math-optimizations unsigned-bitfields unsigned-char unswitch-loops " ++
     "unwind-tables use-cxa-atexit use-cxa-get-exception-ptr use-linker-plugin var-tracking " ++
     "var-tracking-assignments var-tracking-assignments-toggle var-tracking-uninit " ++
     "variable-expansion-in-unroller vect-cost-model verbose-asm version-loops-for-strides " ++
     "visibility-inlines-hidden visibility-ms-compat vpt vtable-gc vtable-thunks vtv-counts " ++
     "vtv-debug weak weak-templates web whole-file working-directory wrapv wrapv-pointer " ++
     "xref zee zero-initialized-in-bss zero-link")

/-- Options of code generation that cannot be turned off. -/
def onlyFeatures : List String :=
  words
    ("all-intrinsics allow-invalid-boz callgraph-info cf-protection " ++
     "chkp-first-field-has-own-bounds chkp-narrow-to-innermost-array compare-debug-second " ++
     "d-lines-as-code d-lines-as-comments diagnostics-plain-output dump-ada-spec " ++
     "dump-ada-spec-slim dump-analyzer dump-analyzer-callgraph dump-analyzer-exploded-graph " ++
     "dump-analyzer-exploded-nodes dump-analyzer-exploded-nodes-2 " ++
     "dump-analyzer-exploded-nodes-3 dump-analyzer-exploded-paths dump-analyzer-feasibility " ++
     "dump-analyzer-json dump-analyzer-state-purge dump-analyzer-stderr " ++
     "dump-analyzer-supergraph dump-analyzer-untracked fixed-form fixed-line-length-none " ++
     "free-form free-line-length-none gnu-runtime integer-4-integer-8 live-patching main " ++
     "module-header module-only multiflags next-runtime profile-info-section real-4-real-10 " ++
     "real-4-real-16 real-4-real-8 real-8-real-10 real-8-real-16 real-8-real-4 " ++
     "stack-protector-all stack-protector-explicit stack-protector-strong stack-usage " ++
     "track-macro-expansion tree-coalesce-inlined-vars")

/-- Options of code generation with a value. -/
def settings : List String :=
  words
    ("abi-version=0 abi-version=16 abi-version=2 abi-version=4 cf-protection=branch " ++
     "cf-protection=check cf-protection=full cf-protection=none cf-protection=return " ++
     "diagnostics-color=always diagnostics-color=auto diagnostics-color=never " ++
     "diagnostics-column-unit=byte diagnostics-column-unit=display " ++
     "diagnostics-escape-format=bytes diagnostics-escape-format=unicode " ++
     "diagnostics-format=json diagnostics-format=json-file diagnostics-format=json-stderr " ++
     "diagnostics-format=sarif-file diagnostics-format=sarif-stderr diagnostics-format=text " ++
     "diagnostics-path-format=inline-events diagnostics-path-format=none " ++
     "diagnostics-path-format=separate-events diagnostics-show-location=every-line " ++
     "diagnostics-show-location=once diagnostics-urls=always diagnostics-urls=auto " ++
     "diagnostics-urls=never dump-ipa-all dump-ipa-inline dump-lang-all dump-noaddr " ++
     "dump-passes dump-rtl-all dump-rtl-expand dump-statistics dump-tree-all " ++
     "dump-tree-gimple dump-tree-optimized dump-tree-original dump-tree-ssa dump-tree-vect " ++
     "dump-unnumbered emit-struct-debug-detailed=any emit-struct-debug-detailed=base " ++
     "emit-struct-debug-detailed=none emit-struct-debug-detailed=sys excess-precision=16 " ++
     "excess-precision=fast excess-precision=standard exec-charset=ASCII " ++
     "exec-charset=ISO-8859-1 exec-charset=UTF-8 exec-charset=latin1 exec-charset=utf-8 " ++
     "fp-contract=fast fp-contract=off fp-contract=on input-charset=ASCII " ++
     "input-charset=ISO-8859-1 input-charset=UTF-8 input-charset=latin1 input-charset=utf-8 " ++
     "ira-algorithm=CB ira-algorithm=priority ira-region=all ira-region=mixed ira-region=one " ++
     "lifetime-dse=0 lifetime-dse=1 lifetime-dse=2 live-patching=inline-clone " ++
     "live-patching=inline-only-static lto-partition=1to1 lto-partition=balanced " ++
     "lto-partition=max lto-partition=none lto-partition=one lto=auto lto=jobserver " ++
     "max-include-depth=100 max-include-depth=16 max-include-depth=200 opt-info-all " ++
     "opt-info-inline opt-info-loop opt-info-missed opt-info-note opt-info-optimized " ++
     "opt-info-vec opt-info-vec-all opt-info-vec-missed opt-info-vec-optimized " ++
     "permitted-flt-eval-methods=c11 profile-reproducible=multithreaded " ++
     "profile-reproducible=parallel-runs profile-reproducible=serial profile-update=atomic " ++
     "profile-update=prefer-atomic profile-update=single reorder-blocks-algorithm=simple " ++
     "reorder-blocks-algorithm=stc sanitize-coverage=trace-cmp sanitize-recover=all " ++
     "sanitize-recover=undefined sanitize=alignment sanitize=bool sanitize=bounds " ++
     "sanitize=bounds-strict sanitize=builtin sanitize=enum sanitize=float-cast-overflow " ++
     "sanitize=float-divide-by-zero sanitize=integer-divide-by-zero sanitize=kernel-address " ++
     "sanitize=nonnull-attribute sanitize=null sanitize=object-size " ++
     "sanitize=pointer-overflow sanitize=return sanitize=returns-nonnull-attribute " ++
     "sanitize=shift sanitize=signed-integer-overflow sanitize=undefined " ++
     "sanitize=unreachable sanitize=vla-bound sanitize=vptr simd-cost-model=cheap " ++
     "simd-cost-model=dynamic simd-cost-model=unlimited simd-cost-model=very-cheap " ++
     "sso-struct=big-endian sso-struct=little-endian sso-struct=native stack-reuse=all " ++
     "stack-reuse=named_vars stack-reuse=none tail-call-workaround=0 tail-call-workaround=1 " ++
     "tail-call-workaround=2 tls-model=global-dynamic tls-model=initial-exec " ++
     "tls-model=local-dynamic tls-model=local-exec trivial-auto-var-init=pattern " ++
     "trivial-auto-var-init=uninitialized trivial-auto-var-init=zero use-ld=bfd use-ld=gold " ++
     "vect-cost-model=cheap vect-cost-model=dynamic vect-cost-model=unlimited " ++
     "vect-cost-model=very-cheap vtable-verify=none wide-exec-charset=UTF-16LE " ++
     "wide-exec-charset=UTF-32LE zero-call-used-regs=all zero-call-used-regs=all-arg " ++
     "zero-call-used-regs=all-gpr zero-call-used-regs=all-gpr-arg zero-call-used-regs=skip " ++
     "zero-call-used-regs=used zero-call-used-regs=used-arg zero-call-used-regs=used-gpr " ++
     "zero-call-used-regs=used-gpr-arg")

/-- Options of code generation with a number. -/
def numberSettings : List String :=
  words
    ("abi-compat-version align-functions align-jumps align-labels align-loops aligned-new " ++
     "analyzer-verbosity blas-matmul-limit checking concepts-diagnostics-depth " ++
     "constexpr-cache-depth constexpr-depth constexpr-loop-limit constexpr-ops-limit " ++
     "diagnostics-column-origin diagnostics-minimum-margin-width init-character inline-limit " ++
     "inline-matmul-limit ira-verbose lto lto-compression-level max-array-constructor " ++
     "max-errors max-identifier-length max-stack-var-size max-subrecord-length " ++
     "message-length objc-abi-version pack-struct patchable-function-entry " ++
     "sched-stalled-insns sched-stalled-insns-dep sched-verbose stack-limit-register tabstop " ++
     "template-backtrace-limit template-depth track-macro-expansion tree-parallelize-loops")

/-- Options of code generation with any value. -/
def textSettings : List String :=
  words
    ("dbg-cnt dump-final-insns dump-go-spec instrument-functions-exclude-file-list " ++
     "instrument-functions-exclude-function-list profile-dir profile-exclude-files " ++
     "profile-filter-files profile-generate profile-info-section profile-note " ++
     "profile-prefix-path profile-use random-seed sanitize-sections stack-check " ++
     "stack-limit-symbol tree-vectorizer-verbose")

/-- Options of the machine that can be turned on and off. -/
def machineFeatures : List String :=
  words
    ("3dnow 3dnowa 80387 8bit-idiv abm accumulate-outgoing-args adx aes align-double " ++
     "align-stringops amx-bf16 amx-int8 amx-tile avx avx2 avx256-split-unaligned-load " ++
     "avx256-split-unaligned-store avx5124fmaps avx5124vnniw avx512bf16 avx512bitalg " ++
     "avx512bw avx512cd avx512dq avx512er avx512f avx512fp16 avx512ifma avx512pf avx512vbmi " ++
     "avx512vbmi2 avx512vl avx512vnni avx512vp2intersect avx512vpopcntdq avxvnni bmi bmi2 " ++
     "call-ms2sysv-xlogues cet-switch cld cldemote clflushopt clwb clzero crc32 cx16 daz-ftz " ++
     "direct-extern-access enqcmd f16c fancy-math-387 fentry fma fma4 force-drap " ++
     "force-indirect-call fp-ret-in-387 fsgsbase fused-madd fxsr gather gfni hle hreset " ++
     "ieee-fp indirect-branch-cs-prefix indirect-branch-register inline-all-stringops " ++
     "inline-stringops-dynamically intel-syntax kl lwp lzcnt manual-endbr mitigate-rop mmx " ++
     "movbe movdir64b movdiri mpx ms-bitfields mwait mwaitx needed omit-leaf-frame-pointer " ++
     "pclmul pcommit pconfig pku popcnt prefer-avx128 prefetchwt1 prfchw ptwrite push-args " ++
     "rdpid rdrnd rdseed recip record-mcount record-return red-zone relax-cmpxchg-loop rtd " ++
     "rtm sahf scatter serialize sgx sha shstk skip-rax-setup soft-float sse sse2 sse2avx " ++
     "sse3 sse4 sse4.1 sse4.2 sse4a sse5 ssse3 stack-arg-probe stackrealign stv tbm " ++
     "tls-direct-seg-refs tsxldtrk uintr unroll-only-small-loops vaes vect8-ret-in-mem " ++
     "vpclmulqdq vzeroupper waitpkg wbnoinvd widekl xop xsave xsavec xsaveopt xsaves")

/-- Options of the machine that cannot be turned off. -/
def onlyMachineFeatures : List String :=
  words
    ("128bit-long-double 64 bionic dispatch-scheduler dump-tune-features general-regs-only " ++
     "glibc hard-float long-double-128 long-double-64 long-double-80 musl pc32 pc64 pc80 " ++
     "sseregparm uclibc")

def machineSettings : List String :=
  words
    ("abi=ms abi=sysv address-mode=long align-data=abi align-data=cacheline " ++
     "align-data=compat asm=att asm=intel branch-cost=0 branch-cost=1 branch-cost=2 " ++
     "branch-cost=3 branch-cost=4 branch-cost=5 cmodel=large cmodel=medium cmodel=small " ++
     "cpu=generic cpu=native fpmath=387 fpmath=both fpmath=sse fpmath=sse+387 fpmath=sse,387 " ++
     "function-return=keep harden-sls=all harden-sls=indirect-jmp harden-sls=none " ++
     "harden-sls=return incoming-stack-boundary=3 incoming-stack-boundary=4 " ++
     "incoming-stack-boundary=5 indirect-branch=keep indirect-branch=thunk-extern " ++
     "instrument-return=call instrument-return=none instrument-return=nop5 " ++
     "memcpy-strategy=unrolled_loop:-1:align move-max=128 move-max=256 move-max=512 " ++
     "prefer-vector-width=128 prefer-vector-width=256 prefer-vector-width=512 " ++
     "prefer-vector-width=none preferred-stack-boundary=3 preferred-stack-boundary=4 " ++
     "preferred-stack-boundary=5 recip=!div recip=all recip=default recip=div recip=none " ++
     "recip=sqrt recip=vec-div recip=vec-sqrt regparm=0 regparm=1 regparm=2 regparm=3 " ++
     "regparm=4 regparm=5 stack-protector-guard-reg=fs stack-protector-guard-reg=gs " ++
     "stack-protector-guard=global stack-protector-guard=tls store-max=128 store-max=256 " ++
     "store-max=512 stringop-strategy=byte_loop stringop-strategy=libcall " ++
     "stringop-strategy=loop stringop-strategy=rep_4byte stringop-strategy=rep_8byte " ++
     "stringop-strategy=rep_byte stringop-strategy=unrolled_loop " ++
     "stringop-strategy=vector_loop tls-dialect=gnu tls-dialect=gnu2 veclibabi=acml " ++
     "veclibabi=svml")

def machineNumbers : List String :=
  words
    ("align-functions align-jumps align-loops large-data-threshold " ++
     "stack-protector-guard-offset")

def machineTexts : List String :=
  words
    ("fentry-name fentry-section stack-protector-guard-symbol")

def warningNames : List String :=
  words
    ("NSObject-attribute abi abi-tag absolute-value address address-of-packed-member " ++
     "aggregate-return aggressive-loop-optimizations aliasing align-commons aligned-new all " ++
     "alloc-zero alloca ampersand analyzer-double-fclose analyzer-double-free " ++
     "analyzer-exposure-through-output-file analyzer-file-leak analyzer-free-of-non-heap " ++
     "analyzer-malloc-leak analyzer-mismatching-deallocation analyzer-null-argument " ++
     "analyzer-null-dereference analyzer-possible-null-argument " ++
     "analyzer-possible-null-dereference analyzer-shift-count-negative " ++
     "analyzer-shift-count-overflow analyzer-stale-setjmp-buffer " ++
     "analyzer-tainted-allocation-size analyzer-tainted-array-index analyzer-tainted-divisor " ++
     "analyzer-tainted-offset analyzer-tainted-size analyzer-too-complex " ++
     "analyzer-unsafe-call-within-signal-handler analyzer-use-after-free " ++
     "analyzer-use-of-pointer-in-stale-stack-frame analyzer-use-of-uninitialized-value " ++
     "analyzer-write-to-const analyzer-write-to-string-literal argument-mismatch " ++
     "arith-conversion array-bounds array-compare array-parameter array-temporaries " ++
     "assign-intercept attribute-alias attribute-warning attributes bad-function-cast " ++
     "bidi-chars bool-compare bool-operation builtin-declaration-mismatch " ++
     "builtin-macro-redefined c++-compat c++0x-compat c++11-compat c++11-extensions " ++
     "c++14-compat c++14-extensions c++17-compat c++17-extensions c++1z-compat c++20-compat " ++
     "c++20-extensions c++23-extensions c++2a-compat c-binding-type c11-c2x-compat " ++
     "c90-c99-compat c99-c11-compat cannot-profile cast-align cast-function-type cast-qual " ++
     "cast-result catch-value char-subscripts character-truncation chkp class-conversion " ++
     "class-memaccess clobbered comma-subscript comment comments compare-reals " ++
     "complain-wrong-lang conditionally-supported conversion conversion-extra " ++
     "conversion-null coverage-invalid-line-number coverage-mismatch cpp " ++
     "ctad-maybe-unsupported ctor-dtor-privacy dangling-else dangling-pointer date-time " ++
     "declaration-after-statement delete-incomplete delete-non-virtual-dtor deprecated " ++
     "deprecated-copy deprecated-copy-dtor deprecated-declarations " ++
     "deprecated-enum-enum-conversion deprecated-enum-float-conversion designated-init " ++
     "disabled-optimization discarded-array-qualifiers discarded-qualifiers div-by-zero " ++
     "do-subscript double-promotion duplicate-decl-specifier duplicated-branches " ++
     "duplicated-cond effc++ empty-body endif-labels enum-compare enum-conversion exceptions " ++
     "expansion-to-defined extra extra-semi float-conversion float-equal format " ++
     "format-contains-nul format-diag format-extra-args format-nonliteral format-overflow " ++
     "format-security format-signedness format-truncation format-y2k format-zero-length " ++
     "frame-address free-nonheap-object frontend-loop-interchange function-elimination hsa " ++
     "if-not-aligned ignored-attributes ignored-qualifiers implicit implicit-fallthrough " ++
     "implicit-function-declaration implicit-int implicit-interface implicit-procedure " ++
     "import inaccessible-base incompatible-pointer-types infinite-recursion " ++
     "inherited-variadic-ctor init-list-lifetime init-self inline int-conversion " ++
     "int-in-bool-context int-to-pointer-cast integer-division interference-size " ++
     "intrinsic-shadow intrinsics-std invalid-imported-macros invalid-memory-model " ++
     "invalid-offsetof invalid-pch jump-misses-init line-truncation literal-suffix " ++
     "logical-not-parentheses logical-op long-long lto-type-mismatch main " ++
     "maybe-uninitialized memset-elt-size memset-transposed-args misleading-indentation " ++
     "mismatched-dealloc mismatched-new-delete mismatched-special-enum mismatched-tags " ++
     "missing-attributes missing-braces missing-declarations missing-field-initializers " ++
     "missing-format-attribute missing-include-dirs missing-noreturn missing-parameter-type " ++
     "missing-profile missing-prototypes missing-requires missing-template-keyword mudflap " ++
     "multichar multiple-inheritance multistatement-macros namespaces narrowing " ++
     "nested-externs noexcept noexcept-type non-template-friend non-virtual-dtor nonnull " ++
     "nonnull-compare normalized null-dereference objc-root-class odr old-style-cast " ++
     "old-style-declaration old-style-definition openacc-parallelism openmp-simd overflow " ++
     "overlength-strings overloaded-virtual override-init override-init-side-effects " ++
     "overwrite-recursive packed packed-bitfield-compat packed-not-aligned padded " ++
     "parentheses pedantic pessimizing-move placement-new pmf-conversions pointer-arith " ++
     "pointer-compare pointer-sign pointer-to-int-cast pragmas prio-ctor-dtor " ++
     "property-assign-default protocol psabi range-loop-construct real-q-constant " ++
     "realloc-lhs realloc-lhs-all redundant-decls redundant-move redundant-tags register " ++
     "reorder restrict return-local-addr return-type scalar-storage-order selector " ++
     "sequence-point shadow shadow-compatible-local shadow-ivar shadow-local " ++
     "shift-count-negative shift-count-overflow shift-negative-value shift-overflow " ++
     "sign-compare sign-conversion sign-promo sized-deallocation sizeof-array-argument " ++
     "sizeof-array-div sizeof-pointer-div sizeof-pointer-memaccess speculative " ++
     "stack-protector strict-aliasing strict-null-sentinel strict-overflow strict-prototypes " ++
     "strict-selector-match string-compare stringop-overflow stringop-overread " ++
     "stringop-truncation subobject-linkage suggest-final-methods suggest-final-types " ++
     "suggest-override surprising switch switch-bool switch-default switch-enum " ++
     "switch-outside-range switch-unreachable sync-nand synth system-headers tabs " ++
     "target-lifetime tautological-compare templates terminate traditional " ++
     "traditional-conversion trampolines trigraphs trivial-auto-var-init tsan type-limits " ++
     "undeclared-selector undef undefined-do-loop underflow uninitialized unknown-pragmas " ++
     "unreachable-code unsafe-loop-optimizations unsuffixed-float-constants unused " ++
     "unused-but-set-parameter unused-but-set-variable unused-const-variable " ++
     "unused-dummy-argument unused-function unused-label unused-local-typedefs unused-macros " ++
     "unused-parameter unused-result unused-value unused-variable use-after-free " ++
     "use-without-only useless-cast varargs variadic-macros vector-operation-performance " ++
     "vexing-parse virtual-inheritance virtual-move-assign vla vla-parameter volatile " ++
     "volatile-register-var write-strings zero-as-null-pointer-constant zero-length-bounds " ++
     "zerotrip")

def warningSettings : List String :=
  words
    ("aligned-new=all aligned-new=global aligned-new=none array-bounds=0 array-bounds=1 " ++
     "array-bounds=2 array-parameter=0 array-parameter=1 array-parameter=2 attribute-alias=0 " ++
     "attribute-alias=1 attribute-alias=2 bidi-chars=any bidi-chars=none cast-align=strict " ++
     "catch-value=0 catch-value=1 catch-value=2 dangling-pointer=0 dangling-pointer=1 " ++
     "dangling-pointer=2 error=implicit-function-declaration format-overflow=0 " ++
     "format-overflow=1 format-overflow=2 format-truncation=0 format-truncation=1 " ++
     "format-truncation=2 format=0 format=1 format=2 implicit-fallthrough=0 " ++
     "implicit-fallthrough=1 implicit-fallthrough=2 implicit-fallthrough=3 " ++
     "implicit-fallthrough=4 implicit-fallthrough=5 normalized=id normalized=nfc " ++
     "normalized=nfkc normalized=none overloaded-virtual=0 overloaded-virtual=1 " ++
     "overloaded-virtual=2 placement-new=0 placement-new=1 placement-new=2 " ++
     "shadow=compatible-local shadow=global shadow=local shift-overflow=0 shift-overflow=1 " ++
     "shift-overflow=2 strict-aliasing=0 strict-aliasing=1 strict-aliasing=2 " ++
     "strict-overflow=0 strict-overflow=1 strict-overflow=2 strict-overflow=3 " ++
     "strict-overflow=4 strict-overflow=5 stringop-overflow=0 stringop-overflow=1 " ++
     "stringop-overflow=2 stringop-overflow=3 stringop-overflow=4 suggest-attribute=cold " ++
     "suggest-attribute=const suggest-attribute=format suggest-attribute=malloc " ++
     "suggest-attribute=noreturn suggest-attribute=pure unused-const-variable=0 " ++
     "unused-const-variable=1 unused-const-variable=2 use-after-free=0 use-after-free=1 " ++
     "use-after-free=2")

def warningNumbers : List String :=
  words
    ("abi alloc-size-larger-than alloca-larger-than frame-larger-than larger-than " ++
     "stack-usage vla-larger-than")

/-- Options of code generation that can only be turned off. -/
def offFeatures : List String :=
  words
    ("auto-profile leading-underscore preprocessed random-seed stack-limit syntax-only " ++
     "whole-program")

/-- Parameters of the compiler, which are numbers. -/
def parameters : List String :=
  words
    ("align-loop-iterations align-threshold analyzer-bb-explosion-factor " ++
     "analyzer-max-constraints analyzer-max-enodes-for-full-dump " ++
     "analyzer-max-enodes-per-program-point analyzer-max-infeasible-edges " ++
     "analyzer-max-recursion-depth analyzer-max-svalue-depth " ++
     "analyzer-min-snodes-for-call-summary asan-globals asan-instrument-allocas " ++
     "asan-instrument-reads asan-instrument-writes asan-instrumentation-with-call-threshold " ++
     "asan-kernel-mem-intrinsic-prefix asan-memintrin asan-stack asan-use-after-return " ++
     "avg-loop-niter avoid-fma-max-bits builtin-expect-probability " ++
     "builtin-string-cmp-inline-length case-values-threshold comdat-sharing-probability " ++
     "constructive-interference-size cxx-max-namespaces-for-diagnostic-help " ++
     "destructive-interference-size dse-max-alias-queries-per-store dse-max-object-size " ++
     "early-inlining-insns evrp-sparse-threshold evrp-switch-limit fsm-scale-path-stmts " ++
     "gcse-after-reload-critical-fraction gcse-after-reload-partial-fraction " ++
     "gcse-cost-distance-ratio gcse-unrestricted-cost ggc-min-expand ggc-min-heapsize " ++
     "gimple-fe-computed-hot-bb-threshold graphite-allow-codegen-errors " ++
     "graphite-max-arrays-per-scop graphite-max-nb-scop-params hash-table-verification-limit " ++
     "hot-bb-count-fraction hot-bb-count-ws-permille hot-bb-frequency-fraction " ++
     "hwasan-instrument-allocas hwasan-instrument-mem-intrinsics hwasan-instrument-reads " ++
     "hwasan-instrument-stack hwasan-instrument-writes hwasan-random-frame-tag " ++
     "inline-heuristics-hint-percent inline-min-speedup inline-unit-growth " ++
     "integer-share-limit ipa-cp-eval-threshold ipa-cp-large-unit-insns " ++
     "ipa-cp-loop-hint-bonus ipa-cp-max-recursive-depth ipa-cp-min-recursive-probability " ++
     "ipa-cp-profile-count-base ipa-cp-recursion-penalty ipa-cp-recursive-freq-factor " ++
     "ipa-cp-single-call-penalty ipa-cp-unit-growth ipa-cp-value-list-size " ++
     "ipa-jump-function-lookups ipa-max-aa-steps ipa-max-agg-items ipa-max-loop-predicates " ++
     "ipa-max-param-expr-ops ipa-max-switch-predicate-bounds ipa-sra-deref-prob-threshold " ++
     "ipa-sra-max-replacements ipa-sra-ptr-growth-factor ipa-sra-ptrwrap-growth-factor " ++
     "ira-consider-dup-in-all-alts ira-loop-reserved-regs ira-max-conflict-table-size " ++
     "ira-max-loops-num ira-simple-lra-insn-threshold iv-always-prune-cand-set-bound " ++
     "iv-consider-all-candidates-bound iv-max-considered-uses " ++
     "jump-table-max-growth-ratio-for-size jump-table-max-growth-ratio-for-speed " ++
     "l1-cache-line-size l1-cache-size l2-cache-size large-function-growth " ++
     "large-function-insns large-stack-frame large-stack-frame-growth large-unit-insns " ++
     "lazy-modules lim-expensive logical-op-non-short-circuit loop-block-tile-size " ++
     "loop-interchange-max-num-stmts loop-interchange-stride-ratio " ++
     "loop-invariant-max-bbs-in-loop loop-max-datarefs-for-datadeps " ++
     "loop-versioning-max-inner-insns loop-versioning-max-outer-insns " ++
     "lra-inheritance-ebb-probability-cutoff lra-max-considered-reload-pseudos " ++
     "lto-max-partition lto-max-streaming-parallelism lto-min-partition lto-partitions " ++
     "max-average-unrolled-insns max-combine-insns max-completely-peel-loop-nest-depth " ++
     "max-completely-peel-times max-completely-peeled-insns max-crossjump-edges " ++
     "max-cse-insns max-cse-path-length max-cselib-memory-locations max-debug-marker-count " ++
     "max-delay-slot-insn-search max-delay-slot-live-search max-dse-active-local-stores " ++
     "max-early-inliner-iterations max-fields-for-field-sensitive max-find-base-term-values " ++
     "max-fsm-thread-path-insns max-gcse-insertion-ratio max-gcse-memory " ++
     "max-goto-duplication-insns max-grow-copy-bb-insns max-hoist-depth " ++
     "max-inline-functions-called-once-insns max-inline-functions-called-once-loop-depth " ++
     "max-inline-insns-auto max-inline-insns-recursive max-inline-insns-recursive-auto " ++
     "max-inline-insns-single max-inline-insns-size max-inline-insns-small " ++
     "max-inline-recursive-depth max-inline-recursive-depth-auto max-isl-operations " ++
     "max-iterations-computation-cost max-iterations-to-track " ++
     "max-jump-thread-duplication-stmts max-jump-thread-paths max-last-value-rtl " ++
     "max-loop-header-insns max-modulo-backtrack-attempts max-partial-antic-length " ++
     "max-peel-branches max-peel-times max-peeled-insns max-pending-list-length " ++
     "max-pipeline-region-blocks max-pipeline-region-insns max-pow-sqrt-depth " ++
     "max-predicted-iterations max-reload-search-insns max-rtl-if-conversion-insns " ++
     "max-rtl-if-conversion-predictable-cost max-rtl-if-conversion-unpredictable-cost " ++
     "max-sched-extend-regions-iters max-sched-insn-conflict-delay max-sched-ready-insns " ++
     "max-sched-region-blocks max-sched-region-insns max-slsr-cand-scan " ++
     "max-speculative-devirt-maydefs max-ssa-name-query-depth max-store-chains-to-track " ++
     "max-stores-to-merge max-stores-to-sink max-stores-to-track max-tail-merge-comparisons " ++
     "max-tail-merge-iterations max-tracked-strlens max-tree-if-conversion-phi-args " ++
     "max-unroll-times max-unrolled-insns max-unswitch-depth max-unswitch-insns " ++
     "max-variable-expansions-in-unroller max-vartrack-expr-depth " ++
     "max-vartrack-reverse-op-size max-vartrack-size min-crossjump-insns " ++
     "min-inline-recursive-probability min-insn-to-prefetch-ratio min-loop-cond-split-prob " ++
     "min-nondebug-insn-uid min-pagesize min-size-for-stack-sharing min-spec-prob " ++
     "min-vect-loop-bound modref-max-accesses modref-max-adjustments modref-max-bases " ++
     "modref-max-depth modref-max-escape-points modref-max-refs modref-max-tests " ++
     "openacc-kernels openacc-privatization parloops-chunk-size parloops-min-per-thread " ++
     "parloops-schedule partial-inlining-entry-probability predictable-branch-outcome " ++
     "prefetch-dynamic-strides prefetch-latency prefetch-min-insn-to-mem-ratio " ++
     "prefetch-minimum-stride profile-func-internal-id ranger-debug ranger-logical-depth " ++
     "ranger-recompute-depth relation-block-limit rpo-vn-max-loop-depth " ++
     "sccvn-max-alias-queries-per-access scev-max-expr-complexity scev-max-expr-size " ++
     "sched-autopref-queue-depth sched-mem-true-dep-cost sched-pressure-algorithm " ++
     "sched-spec-prob-cutoff sched-state-edge-prob-cutoff selsched-insns-to-rename " ++
     "selsched-max-lookahead selsched-max-sched-times simultaneous-prefetches " ++
     "sink-frequency-threshold sms-dfa-history sms-loop-average-count-threshold " ++
     "sms-max-ii-factor sms-min-sc sra-max-propagations sra-max-scalarization-size-Osize " ++
     "sra-max-scalarization-size-Ospeed ssa-name-def-chain-limit ssp-buffer-size " ++
     "stack-clash-protection-guard-size stack-clash-protection-probe-interval " ++
     "store-merging-allow-unaligned store-merging-max-size " ++
     "switch-conversion-max-branch-ratio threader-debug tm-max-aggregate-size " ++
     "tracer-dynamic-coverage tracer-dynamic-coverage-feedback tracer-max-code-growth " ++
     "tracer-min-branch-probability tracer-min-branch-probability-feedback " ++
     "tracer-min-branch-ratio tree-reassoc-width tsan-distinguish-volatile " ++
     "tsan-instrument-func-entry-exit uninit-control-dep-attempts uninit-max-chain-len " ++
     "uninit-max-num-chains uninlined-function-insns uninlined-function-time " ++
     "uninlined-thunk-insns uninlined-thunk-time unlikely-bb-count-fraction " ++
     "unroll-jam-max-unroll unroll-jam-min-percent use-after-scope-direct-emission-threshold " ++
     "use-canonical-types vect-epilogues-nomask vect-induction-float " ++
     "vect-inner-loop-cost-factor vect-max-layout-candidates vect-max-peeling-for-alignment " ++
     "vect-max-version-for-alias-checks vect-max-version-for-alignment-checks " ++
     "vect-partial-vector-usage x86-stlf-window-ninsns x86-stv-max-visits")

end LoopNest.Compiler.Options
